/-
This file proves that the place of the next stack counts the stacks: an allocation moves it by one
slot, and the page tables and the release of a stack leave it as it is.
-/

import Mmurtl.Memory.Stacks

namespace Mmurtl.Stacks

open Frames User

/-! ### Rules -/

section Rules

variable {α β : Type} {call : Call α} {next : α → Call β}

/-- A call leaves the place of the next stack as it is. -/
def Stays (call : Call α) : Prop := ∀ region, (call region).2.next = region.next

theorem Stays.bind (stays : Stays call) (rest : ∀ value, Stays (next value)) :
    Stays (call >>= next) := by
  intro region
  have first := stays region
  rw [Program.run_bind]
  rcases run : call region with ⟨value | reason | _, after⟩ <;> rw [run] at first
  · exact (rest value after).trans first
  · exact first
  · exact first

theorem Stays.ensures {region : Region} {last : β → Region → Prop} (stays : Stays call)
    (rest : ∀ value after, after.next = region.next → (next value).Ensures after last) :
    (call >>= next).Ensures region last := by
  refine Program.Ensures.bind (fun value after run => ?_) rest
  rw [← stays region, run]

theorem Stays.require {condition : Prop} [Decidable condition] {next : Unit → Call β}
    (rest : Stays (next ())) : Stays (Program.require condition >>= next) := by
  refine Stays.bind (fun region => ?_) fun _ => rest
  unfold Program.require
  split <;> rfl

theorem Stays.ite {condition : Prop} [Decidable condition] {other : Call α} (yes : Stays call)
    (no : Stays other) : Stays (if condition then call else other) := by
  split
  · exact yes
  · exact no

theorem Stays.forEach {items : List α} {body : α → Call Unit} (each : ∀ item, Stays (body item)) :
    Stays (Program.forEach items body) := by
  induction items with
  | nil => exact fun _ => rfl
  | cons item rest ih => exact (each item).bind fun _ => ih

theorem onFrames_stays (call : Frames.Call α) : Stays (onFrames call) := by
  intro region
  unfold onFrames Program.within
  split
  · rfl
  · contradiction
  · rfl

theorem takeFrame_stays : Stays takeFrame := (onFrames_stays _).bind fun _ _ => rfl

end Rules

/-! ### Calls -/

section Calls

variable (arch : Arch) (root va : Nat)

theorem tableOf_stays (word : Nat) : Stays (tableOf arch word) := .require fun _ => rfl

theorem ensureTable_stays (place : Nat) : Stays (ensureTable arch place) := by
  refine Stays.bind (fun _ => rfl) fun word => .ite (tableOf_stays arch word) ?_
  refine takeFrame_stays.bind fun pa => Stays.bind (.ite (onFrames_stays _) fun _ => rfl) ?_
  exact fun _ => Stays.bind (fun _ => rfl) fun _ => tableOf_stays arch _

theorem walkCreate_stays (level table : Nat) : Stays (walkCreate arch va level table) := by
  induction level generalizing table with
  | zero => exact fun _ => rfl
  | succ level ih => exact (ensureTable_stays arch _).bind ih

theorem map_stays (pa : Nat) : Stays (map arch root va pa) :=
  .require <| (walkCreate_stays arch va _ _).bind fun _ =>
    Stays.bind (fun _ => rfl) fun _ => .require fun _ => rfl

theorem mapped_stays : Stays (mapped arch root va) := by
  unfold mapped
  generalize root * frameSize = table
  generalize 3 = level
  induction level generalizing table with
  | zero => exact fun _ => rfl
  | succ level ih =>
    exact Stays.bind (fun _ => rfl) fun word => .ite (fun _ => rfl) (.ite (fun _ => rfl) (ih _))

theorem mapPages_stays (offsets : List Nat) (first : Option Nat) :
    Stays (mapPages arch root va offsets first) := by
  induction offsets generalizing first with
  | nil => exact fun _ => rfl
  | cons i rest ih =>
    exact takeFrame_stays.bind fun pa => (map_stays arch root _ pa).bind fun _ => ih _

theorem unmap_stays : Stays (unmap arch root va) := by
  have walk (level table : Nat) : Stays (walkFind arch va level table) := by
    induction level generalizing table with
    | zero => exact fun _ => rfl
    | succ level ih => exact Stays.bind (fun _ => rfl) fun word => .require (ih _)
  refine (walk _ _).bind fun place => Stays.bind (fun _ => rfl) fun word => .require ?_
  exact Stays.bind (fun _ => rfl) fun _ _ => rfl

theorem unmapPages_stays (offsets : List Nat) : Stays (unmapPages arch root va offsets) := by
  induction offsets with
  | nil => exact fun _ => rfl
  | cons i rest ih => exact (unmap_stays arch root _).bind fun pa => ih.bind fun _ _ => rfl

theorem detachEmpty_stays : Stays (detachEmpty arch root va) := by
  have follow (place : Nat) : Stays (follow arch place) :=
    Stays.bind (fun _ => rfl) (tableOf_stays arch)
  refine (follow _).bind fun pdpt => (follow _).bind fun pd => (follow _).bind fun pt => ?_
  refine Stays.bind (fun _ => rfl) fun last => .ite ?_ fun _ => rfl
  refine Stays.bind (fun _ => rfl) fun _ => Stays.bind (fun _ => rfl) fun directory => ?_
  exact .ite (Stays.bind (fun _ => rfl) fun _ _ => rfl) fun _ => rfl

theorem release_stays (phys : Nat) : Stays (release arch root va phys) := by
  refine .require <| (unmapPages_stays arch root va _).bind fun pages => .require ?_
  refine (detachEmpty_stays arch root va).bind fun tables => ?_
  refine (Stays.forEach fun _ => onFrames_stays _).bind fun _ => ?_
  exact (Stays.forEach fun _ => .ite (onFrames_stays _) fun _ => rfl).bind fun _ _ => rfl

variable {arch root} {before region after : Region} {stack : KernelStack} {draw : Nat}

theorem next_of_init (run : init arch root draw before = (.ok (), region)) :
    region.next = firstSlot draw := by
  rw [init, Program.modify_bind_run] at run
  have stays := takeFrame_stays.bind (map_stays arch root base) ⟨before.frames, firstSlot draw⟩
  rwa [run] at stays

/-- An allocation takes the next slot. -/
theorem allocateSized_ensures (size : Nat) : (allocateSized arch root size).Ensures region
    fun stack after => region.next + stride ≤ limit ∧ stack.virt = region.next + page ∧
      after.next = region.next + stride := by
  refine .gets (.require fun room => .changes ?_)
  refine (mapped_stays arch root _).ensures fun _ _ kept => .require fun _ => ?_
  refine (mapped_stays arch root _).ensures fun _ _ keptToo => .require fun _ => ?_
  refine (mapPages_stays arch root _ _ _).ensures fun _ _ keptLast => .expect fun phys _ => ?_
  exact .pure ⟨room, rfl, keptLast.trans (keptToo.trans kept)⟩

end Calls

end Mmurtl.Stacks

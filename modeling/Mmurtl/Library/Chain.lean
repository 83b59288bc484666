/-
This file defines chains: lists in which every element links to the next one and the
last one ends the list. A chain is determined by where it starts, repeats no element,
and depends on the links of its elements only.
-/

import Mathlib

namespace Mmurtl

open List

/-- Where an element leads: nowhere, because it is the last one, to another element, or
nowhere, because it is no element of a chain. -/
inductive Link (α : Type) where
  | stop
  | next (target : α)
  | broken

/-- The elements from one on, up to the last one. -/
inductive Linked {α : Type} (link : α → Link α) : α → List α → Prop
  | last {first : α} : link first = .stop → Linked link first [first]
  | next {first target : α} {rest : List α} : link first = .next target →
      Linked link target rest → Linked link first (first :: rest)

namespace Linked

variable {α : Type} {link : α → Link α} {first : α} {chain : List α}

section

variable (linked : Linked link first chain)
include linked

theorem ne_nil : chain ≠ [] := by
  cases linked <;> exact cons_ne_nil _ _

theorem head? : chain.head? = some first := by
  cases linked <;> rfl

theorem first_mem : first ∈ chain :=
  mem_of_head? linked.head?

/-- A chain is determined by where it starts. -/
theorem unique {other : List α} (otherLinked : Linked link first other) : chain = other := by
  induction linked generalizing other with
  | last stop =>
    cases otherLinked with
    | last _ => rfl
    | next next _ => rw [stop] at next; cases next
  | next next _ ih =>
    cases otherLinked with
    | last stop => rw [next] at stop; cases stop
    | next otherNext rest =>
      rw [next] at otherNext
      cases otherNext
      rw [ih rest]

/-- The chain from one of the elements on is the end of the chain. -/
theorem of_mem {element : α} (member : element ∈ chain) :
    ∃ rest, Linked link element rest ∧ rest <:+ chain := by
  induction linked with
  | last stop =>
    rw [mem_singleton] at member
    subst member
    exact ⟨_, .last stop, suffix_rfl⟩
  | next next tail ih =>
    rcases mem_cons.mp member with rfl | later
    · exact ⟨_, .next next tail, suffix_rfl⟩
    · obtain ⟨rest, found, suffix⟩ := ih later
      exact ⟨rest, found, suffix.trans (suffix_cons _ _)⟩

/-- A chain repeats no element. -/
theorem nodup : chain.Nodup := by
  induction linked with
  | last stop => exact nodup_singleton _
  | @next first target rest next tail ih =>
    refine nodup_cons.mpr ⟨fun member => ?_, ih⟩
    obtain ⟨_, found, suffix⟩ := tail.of_mem member
    have length := suffix.length_le
    rw [← unique (.next next tail) found, length_cons] at length
    omega

/-- A chain depends on the links of its elements only. -/
theorem congr {other : α → Link α} (same : ∀ element ∈ chain, other element = link element) :
    Linked other first chain := by
  induction linked with
  | last stop => exact .last ((same _ (mem_singleton_self _)).trans stop)
  | next next _ ih =>
    exact .next ((same _ mem_cons_self).trans next)
      (ih (forall_mem_cons.mp same).2)

/-- No element of a chain is broken. -/
theorem ne_broken {element : α} (member : element ∈ chain) : link element ≠ .broken := by
  obtain ⟨_, found, _⟩ := linked.of_mem member
  cases found with
  | last stop => rw [stop]; exact nofun
  | next next _ => rw [next]; exact nofun

/-- An element that ends a chain is its last one. -/
theorem getLast?_of_stop {element : α} (member : element ∈ chain)
    (stop : link element = .stop) : chain.getLast? = some element := by
  obtain ⟨_, found, suffix⟩ := linked.of_mem member
  rw [found.unique (.last stop)] at suffix
  obtain ⟨front, rfl⟩ := suffix
  exact getLast?_concat

/-- The last element ends a chain. -/
theorem stop_of_getLast? {last : α} (ends : chain.getLast? = some last) : link last = .stop := by
  induction linked with
  | last stop =>
    cases ends
    exact stop
  | next _ tail ih =>
    rw [getLast?_cons_of_ne_nil tail.ne_nil] at ends
    exact ih ends

/-- The last element but one leads to the last one. -/
theorem next_of_concat {front : List α} {last new : α} (split : chain = front ++ [new])
    (ends : front.getLast? = some last) : link last = .next new := by
  induction linked generalizing front with
  | last _ =>
    cases front with
    | nil => cases ends
    | cons _ others => exact absurd (cons.inj split).2.symm (append_ne_nil_of_right_ne_nil _ nofun)
  | next follows tail ih =>
    cases front with
    | nil => cases ends
    | cons head others =>
      obtain ⟨rfl, rfl⟩ := cons.inj split
      by_cases empty : others = []
      · subst empty
        cases ends
        cases tail.head?
        exact follows
      · rw [getLast?_cons_of_ne_nil empty] at ends
        exact ih rfl ends

/-- A chain can be continued behind its last element. -/
theorem snoc {other : α → Link α} {last new : α} (ends : chain.getLast? = some last)
    (same : ∀ element ∈ chain, element ≠ last → other element = link element)
    (next : other last = .next new) (stop : other new = .stop) :
    Linked other first (chain ++ [new]) := by
  induction linked with
  | last _ =>
    cases ends
    exact .next next (.last stop)
  | @next first target rest follows tail ih =>
    have later : rest.getLast? = some last := by
      rw [← ends, getLast?_cons_of_ne_nil tail.ne_nil]
    have different : first ≠ last := by
      rintro rfl
      exact (nodup_cons.mp (Linked.next follows tail).nodup).1 (mem_of_getLast? later)
    exact .next ((same _ mem_cons_self different).trans follows)
      (ih later (forall_mem_cons.mp same).2)

end

/-! ### An element behind the last one -/

section

variable [DecidableEq α] {other : α → Link α} {last new : α} (ended : link last = .stop)
  (same : ∀ element, element ≠ last → element ≠ new → other element = link element)
  (next : other last = .next new) (stop : other new = .stop)
include ended same next stop

/-- What a chain was before an element was put behind another: the same, a shorter one, or one that
would have ended with the new element. -/
theorem cases_snoc (linked : Linked other first chain) :
    Linked link first chain ∨ ∃ front, chain = front ++ [new] ∧
      (Linked link first front ∧ front.getLast? = some last ∨
        Linked (Function.update link new .stop) first (front ++ [new])) := by
  induction linked with
  | @last first stopped =>
    by_cases isNew : first = new
    · subst isNew
      exact Or.inr ⟨[], rfl, Or.inr (.last (Function.update_self ..))⟩
    · refine Or.inl (.last ((same first ?_ isNew).symm.trans stopped))
      rintro rfl
      cases next.symm.trans stopped
  | @next first target rest follows tail ih =>
    have notNew : first ≠ new := by
      rintro rfl
      cases stop.symm.trans follows
    by_cases isLast : first = last
    · subst isLast
      cases next.symm.trans follows
      rw [tail.unique (.last stop)]
      exact Or.inr ⟨[first], rfl, Or.inl ⟨.last ended, rfl⟩⟩
    · have before := (same first isLast notNew).symm.trans follows
      rcases ih with old | ⟨front, rfl, ⟨old, ends⟩ | joined⟩
      · exact Or.inl (.next before old)
      · refine Or.inr ⟨first :: front, rfl, Or.inl ⟨.next before old, ?_⟩⟩
        rw [getLast?_cons_of_ne_nil old.ne_nil]
        exact ends
      · refine Or.inr ⟨first :: front, rfl, Or.inr (.next ?_ joined)⟩
        rw [Function.update_of_ne notNew]
        exact before

end

end Linked

end Mmurtl

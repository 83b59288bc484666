/-
This file models the check of user pointers before a copy and its branch-free form, which sends
every pointer that fails it to the unmapped end of the user window.
-/

import Mmurtl.User.Layout

namespace Mmurtl.User

/-! ### Masks -/

def userBase : UInt64 := .ofNat base

def userEnd : UInt64 := .ofNat windowEnd

/-- All ones for an index below the size. -/
def arrayIndexMaskNospec (index size : UInt64) : UInt64 := if index < size then ~~~0 else 0

def boundsOk (ptr len : UInt64) : Bool :=
  len == 0 || (userBase ≤ ptr && ptr < userEnd && len ≤ userEnd - ptr)

def maskUserPtr (ptr len : UInt64) : UInt64 :=
  let start := arrayIndexMaskNospec (ptr - userBase) (userEnd - userBase)
  let length := arrayIndexMaskNospec len (userEnd - ptr + 1)
  let mask := start &&& length
  (ptr &&& mask) ||| (userEnd &&& ~~~mask)

/-- The bytes at a pointer lie in the user window. -/
def Within (ptr len : UInt64) : Prop := userBase ≤ ptr ∧ ptr < userEnd ∧ len ≤ userEnd - ptr

instance (ptr len : UInt64) : Decidable (Within ptr len) := inferInstanceAs (Decidable (_ ∧ _))

theorem within_iff {ptr len : UInt64} : Within ptr len ↔
    base ≤ ptr.toNat ∧ ptr.toNat < windowEnd ∧ ptr.toNat + len.toNat ≤ windowEnd := by
  simp only [Within, UInt64.le_iff_toNat_le, UInt64.lt_iff_toNat_lt, UInt64.toNat_sub,
    show userBase.toNat = base from rfl, show userEnd.toNat = windowEnd from rfl]
  unfold windowEnd base
  omega

/-- The two masks together are the check, also where a difference wraps. -/
theorem masked_iff {ptr len : UInt64} :
    ptr - userBase < userEnd - userBase ∧ len < userEnd - ptr + 1 ↔ Within ptr len := by
  have small := ptr.toNat_lt
  rw [within_iff]
  simp only [UInt64.lt_iff_toNat_lt, UInt64.toNat_sub, UInt64.toNat_add,
    show userBase.toNat = base from rfl, show userEnd.toNat = windowEnd from rfl,
    show (1 : UInt64).toNat = 1 from rfl]
  unfold windowEnd base
  omega

theorem maskUserPtr_eq (ptr len : UInt64) :
    maskUserPtr ptr len = if Within ptr len then ptr else userEnd := by
  simp only [maskUserPtr, arrayIndexMaskNospec, ← masked_iff]
  by_cases inWindow : ptr - userBase < userEnd - userBase <;>
    by_cases short : len < userEnd - ptr + 1 <;> simp [inWindow, short]

theorem boundsOk_eq_true {ptr len : UInt64} :
    boundsOk ptr len = true ↔ len = 0 ∨ Within ptr len := by
  simp [boundsOk, Within, and_assoc]

/-! ### Copies -/

variable {σ : Type} (move : UInt64 → σ → Option σ) (ptr : UInt64) (state : σ)

/-- The loop of a copy: a byte is moved at each address until one faults. What is left, what the
moves did and the addresses touched. -/
def userCopy (move : UInt64 → σ → Option σ) : Nat → UInt64 → σ → Nat × σ × List UInt64
  | 0, _, state => (0, state, [])
  | left + 1, address, state =>
    match move address state with
    | none => (left + 1, state, [address])
    | some next =>
      let (rest, last, touched) := userCopy move left (address + 1) next
      (rest, last, address :: touched)

/-- A copy of some bytes, once the pointer to them is checked and masked. -/
def checkedCopy (length : Nat) : Bool × σ × List UInt64 :=
  if boundsOk ptr (.ofNat length) then
    let (left, last, touched) := userCopy move length (maskUserPtr ptr (.ofNat length)) state
    (left == 0, last, touched)
  else (false, state, [])

/-- A copy whose moves load a byte from user memory. -/
def copyFromUser (length : Nat) : Bool × σ × List UInt64 := checkedCopy move ptr state length

/-- A copy whose moves store a byte in user memory. -/
def copyToUser (length : Nat) : Bool × σ × List UInt64 := checkedCopy move ptr state length

theorem userCopy_touched {left : Nat} {address : UInt64} (fits : address.toNat + left ≤ windowEnd) :
    ∀ byte ∈ (userCopy move left address state).2.2,
      address.toNat ≤ byte.toNat ∧ byte.toNat < address.toNat + left := by
  induction left generalizing address state with
  | zero => nofun
  | succ left ih =>
    intro byte member
    unfold userCopy at member
    cases moved : move address state with
    | none =>
      rw [moved] at member
      cases List.mem_singleton.mp member
      omega
    | some next =>
      rw [moved] at member
      rcases List.mem_cons.mp member with rfl | later
      · omega
      · have step : (address + 1).toNat = address.toNat + 1 := by
          unfold windowEnd base at fits
          rw [UInt64.toNat_add, UInt64.toNat_one]
          omega
        have range := ih next (by omega) byte later
        omega

/-- A copy touches no byte outside the user window. -/
theorem checkedCopy_touched {length : Nat} (fits : length < 2 ^ 64) :
    ∀ byte ∈ (checkedCopy move ptr state length).2.2, userBase ≤ byte ∧ byte < userEnd := by
  have small : (UInt64.ofNat length).toNat = length := Nat.mod_eq_of_lt fits
  intro byte member
  unfold checkedCopy at member
  split at member
  · rename_i checked
    rcases boundsOk_eq_true.mp checked with none | within
    · rw [none] at small
      cases small
      cases member
    · rw [maskUserPtr_eq, if_pos within] at member
      have bounds := within_iff.mp within
      rw [small] at bounds
      have range := userCopy_touched move state bounds.2.2 byte member
      exact ⟨UInt64.le_iff_toNat_le.mpr (Nat.le_trans bounds.1 range.1),
        UInt64.lt_iff_toNat_lt.mpr (Nat.lt_of_lt_of_le range.2 bounds.2.2)⟩
  · cases member

/-! ### Masks and checks agree -/

/-- Masking keeps a pointer to bytes in the user window and sends every other one to its end, as
the check decides; and the copies stay in the window. -/
structure MaskAgrees : Prop where
  inside : ∀ ptr len, Within ptr len → maskUserPtr ptr len = ptr
  outside : ∀ ptr len, ¬Within ptr len → maskUserPtr ptr len = userEnd
  checked : ∀ ptr len, 0 < len → ptr ≠ userEnd →
    (maskUserPtr ptr len = ptr ↔ boundsOk ptr len = true)
  loads : ∀ (σ : Type) load src (state : σ), ∀ length < 2 ^ 64,
    ∀ byte ∈ (copyFromUser load src state length).2.2, userBase ≤ byte ∧ byte < userEnd
  stores : ∀ (σ : Type) store dst (state : σ), ∀ length < 2 ^ 64,
    ∀ byte ∈ (copyToUser store dst state length).2.2, userBase ≤ byte ∧ byte < userEnd

theorem maskAgrees : MaskAgrees where
  inside ptr len within := by rw [maskUserPtr_eq, if_pos within]
  outside ptr len beyond := by rw [maskUserPtr_eq, if_neg beyond]
  checked ptr len some other := by
    have nonzero : len ≠ 0 := by
      rintro rfl
      exact absurd some (by decide)
    rw [maskUserPtr_eq, boundsOk_eq_true, or_iff_right nonzero]
    by_cases within : Within ptr len
    · simp [within]
    · simpa [within] using other.symm
  loads _ load src state _ fits := checkedCopy_touched load src state fits
  stores _ store dst state _ fits := checkedCopy_touched store dst state fits

end Mmurtl.User

/-
This file states what a slab looks like in memory and how taking a slot and cutting a new
slab change it: the free slots are threaded through their first words, and but for these
links they are zero. The slabs of a cache are found through the numbers of the latest of
them.
-/

import Mmurtl.Memory.Slab
import Mmurtl.Library.Threads

namespace Mmurtl.Heap

open List Function

variable {stride slot secret next cache bound index : Nat} {other memory : Memory}
  {pages : List Slab} {condition : Prop} {reason : Error} {slabs : Slabs}
  {fails : Error → Slabs → Prop}

/-! ### Requests -/

theorem checkedNextPowerOfTwo_eq_some {number : Nat}
    (found : checkedNextPowerOfTwo number = some stride) :
    number ≤ stride ∧ ∃ shift, stride = 2 ^ shift := by
  have large := find?_some found
  obtain ⟨shift, _, same⟩ := mem_map.mp (mem_of_find?_eq_some found)
  exact ⟨of_decide_eq_true large, shift, same.symm⟩

/-- What a request that is granted says. -/
theorem request_eq_ok {layout : Layout} {domain : Nat} {req : Request}
    (granted : request layout domain = .ok req) :
    req.cache < domains * classes ∧ req.stride = 2 ^ (req.cache % classes + minShift) ∧
      req.span = max req.stride page ∧ req.align = req.span ∧ layout.size ≤ req.stride ∧
      layout.align ∣ req.stride := by
  unfold request at granted
  split at granted
  case isTrue => cases granted
  case isFalse known =>
    split at granted
    case h_1 => cases granted
    case h_2 stride found =>
      split at granted
      case isTrue => cases granted
      case isFalse bounded =>
        cases granted
        obtain ⟨_, shift, rfl⟩ := checkedNextPowerOfTwo_eq_some found
        have low : minShift ≤ shift :=
          (Nat.pow_le_pow_iff_right (by decide : 1 < 2)).mp (by omega)
        have high : shift ≤ maxShift :=
          (Nat.pow_le_pow_iff_right (by decide : 1 < 2)).mp (by omega)
        have logarithm : Nat.log2 (2 ^ shift) = shift := Nat.log2_two_pow
        have size : shift - minShift < classes := by
          unfold classes minShift at *
          omega
        have class_ : (domain * classes + (shift - minShift)) % classes = shift - minShift := by
          rw [Nat.mul_add_mod_self_right, Nat.mod_eq_of_lt size]
        obtain ⟨power, isPower⟩ := layout.power
        have divides : 2 ^ power ∣ 2 ^ shift := by
          refine Nat.pow_dvd_pow 2 ((Nat.pow_le_pow_iff_right (by decide : 1 < 2)).mp ?_)
          rw [← isPower]
          omega
        refine ⟨?_, ?_, rfl, rfl, by show _ ≤ 2 ^ shift; omega, isPower ▸ divides⟩
        · show domain * classes + (Nat.log2 (2 ^ shift) - minShift) < domains * classes
          rw [logarithm]
          have inside : domain + 1 ≤ domains := by omega
          have product := Nat.mul_le_mul_right classes inside
          rw [Nat.succ_mul] at product
          omega
        · rw [logarithm, class_, Nat.sub_add_cancel low]

/-- A request that is not granted is not granted for its layout. -/
theorem request_cases (layout : Layout) (domain : Nat) :
    (∃ req, request layout domain = .ok req) ∨ request layout domain = .error .layout := by
  unfold request
  split
  · exact Or.inr rfl
  · split
    · exact Or.inr rfl
    · split
      · exact Or.inr rfl
      · exact Or.inl ⟨_, rfl⟩

/-! ### Slabs in memory -/

namespace Slab

/-- The address of a slot. -/
def address (slab : Slab) (slot : Nat) : Nat := slab.base + slot * slab.stride

/-- The number of slots. -/
def count (slab : Slab) : Nat := slab.span / slab.stride

/-- How a slab is cut, as its cache says. -/
structure Formed (slab : Slab) : Prop where
  base : slab.base ≠ 0
  cache : slab.cache < domains * classes
  stride : slab.stride = 2 ^ (slab.cache % classes + minShift)
  span : slab.span = max slab.stride page
  aligned : slab.span ∣ slab.base
  bound : slab.base + slab.span < 2 ^ 64

/-- Different slots do not overlap. -/
theorem address_apart (slab : Slab) {other : Nat} (different : slot ≠ other) :
    slab.address slot + slab.stride ≤ slab.address other ∨
      slab.address other + slab.stride ≤ slab.address slot := by
  unfold address
  rcases Nat.lt_or_gt_of_ne different with less | more
  · have product := Nat.mul_le_mul_right slab.stride (Nat.succ_le_of_lt less)
    rw [Nat.succ_mul] at product
    omega
  · have product := Nat.mul_le_mul_right slab.stride (Nat.succ_le_of_lt more)
    rw [Nat.succ_mul] at product
    omega

section Formed

variable {slab : Slab} (formed : slab.Formed)
include formed

theorem Formed.stride_ge : 16 ≤ slab.stride := by
  rw [formed.stride]
  exact Nat.pow_le_pow_right (Nat.succ_pos 1) (Nat.le_add_left minShift _)

theorem Formed.stride_pos : 0 < slab.stride := by
  have large := formed.stride_ge
  omega

theorem Formed.dvd_stride : 8 ∣ slab.stride := by
  rw [formed.stride]
  exact Nat.pow_dvd_pow 2 (Nat.le_trans (by decide : 3 ≤ minShift) (Nat.le_add_left _ _))

theorem Formed.stride_dvd : slab.stride ∣ slab.span := by
  rw [formed.span]
  rcases Nat.le_total slab.stride page with small | large
  · rw [Nat.max_eq_right small]
    rw [formed.stride] at small ⊢
    exact Nat.pow_dvd_pow 2 ((Nat.pow_le_pow_iff_right (by decide : 1 < 2)).mp
      (show _ ≤ 2 ^ 12 from small))
  · exact ⟨1, by rw [Nat.mul_one, Nat.max_eq_left large]⟩

theorem Formed.count_mul : slab.count * slab.stride = slab.span :=
  Nat.div_mul_cancel formed.stride_dvd

theorem Formed.count_pos : 0 < slab.count := by
  refine Nat.div_pos ?_ formed.stride_pos
  rw [formed.span]
  exact Nat.le_max_left _ _

theorem Formed.count_le : slab.count ≤ 256 := by
  have large := formed.stride_ge
  have product := formed.count_mul
  rw [formed.span] at product
  by_contra many
  have more := Nat.mul_le_mul_right slab.stride (show 257 ≤ slab.count by omega)
  unfold page at product
  omega

/-- A slot lies inside its slab. -/
theorem Formed.address_le (inside : slot < slab.count) :
    slab.address slot + slab.stride ≤ slab.base + slab.span := by
  have product := Nat.mul_le_mul_right slab.stride (Nat.succ_le_of_lt inside)
  rw [formed.count_mul, Nat.succ_mul] at product
  unfold address
  omega

theorem Formed.address_ne_zero (slot : Nat) : slab.address slot ≠ 0 := by
  have proper := formed.base
  unfold address
  omega

theorem Formed.address_inj {other : Nat} (same : slab.address slot = slab.address other) :
    slot = other := by
  by_contra different
  have apart := slab.address_apart different
  have positive := formed.stride_pos
  omega

theorem Formed.slot_address (inside : slot < slab.count) :
    slab.slot (slab.address slot) = .ok slot := by
  have positive := formed.stride_pos
  have bounded := formed.address_le inside
  have offset : slab.address slot - slab.base = slot * slab.stride := Nat.add_sub_cancel_left ..
  have low : slab.base ≤ slab.address slot := Nat.le_add_right ..
  rw [Slab.slot, if_pos ⟨low, by omega⟩, offset, Nat.mul_mod_left, if_neg (not_not.mpr rfl),
    Nat.mul_div_cancel _ positive]

theorem Formed.isLive_eq (inside : slot < slab.count) : slab.isLive slot = .ok (slab.live slot) :=
  if_pos (Nat.lt_of_lt_of_le inside formed.count_le)

theorem Formed.validateFree_address (inside : slot < slab.count) (free : slab.live slot = false) :
    slab.validateFree (slab.address slot) = .ok () := by
  rw [Slab.validateFree, formed.slot_address inside, Outcome.ok_bind, formed.isLive_eq inside,
    Outcome.ok_bind, free]
  rfl

/-- The address of a slot is a multiple of its size. -/
theorem Formed.stride_dvd_address (slot : Nat) : slab.stride ∣ slab.address slot :=
  Nat.dvd_add (Nat.dvd_trans formed.stride_dvd formed.aligned) (Nat.dvd_mul_left ..)

end Formed

/-- An address is that of a free slot. -/
def FreeAt (slab : Slab) (address : Nat) : Prop :=
  ∃ slot, slot < slab.count ∧ slab.live slot = false ∧ address = slab.address slot

end Slab

/-- The link stored at an address. -/
def link (memory : Memory) (secret address : Nat) : Nat :=
  memory.readWord address ^^^ secret ^^^ address

theorem link_congr {address : Nat} (agree : memory.AgreeOn other address 8) :
    link other secret address = link memory secret address := by
  rw [link, link, Memory.readWord_congr agree]

/-- A link that was stored is found again. -/
theorem link_writeWord (memory : Memory) {address : Nat} (small : secret < 2 ^ 64)
    (low : address < 2 ^ 64) (fits : next < 2 ^ 64) :
    link (memory.writeWord address (next ^^^ secret ^^^ address)) secret address = next := by
  have bound := Nat.xor_lt_two_pow (Nat.xor_lt_two_pow fits small) low
  rw [link, Memory.readWord_writeWord memory address bound]
  grind

/-- The free slots of a slab are linked in memory, each once, and zero but for their links. -/
structure Sound (memory : Memory) (secret : Nat) (slab : Slab) : Prop where
  formed : slab.Formed
  threaded : ∃ chain, Threaded (link memory secret) 0 slab.head chain ∧ chain.Nodup ∧
    chain.length = slab.free ∧ ∀ address, address ∈ chain ↔ slab.FreeAt address
  clean : ∀ address, slab.FreeAt address → memory.ZeroOn (address + 8) (slab.stride - 8)

variable {slab : Slab}

/-- A slab does not depend on memory outside its free slots. -/
theorem Sound.congr (sound : Sound memory secret slab)
    (agree : ∀ address, slab.FreeAt address → memory.AgreeOn other address slab.stride) :
    Sound other secret slab := by
  have large := sound.formed.stride_ge
  obtain ⟨chain, threaded, distinct, long, members⟩ := sound.threaded
  refine ⟨sound.formed, ⟨chain, threaded.congr ?_, distinct, long, members⟩, ?_⟩
  · intro address listed
    refine link_congr fun byte low high => ?_
    exact agree address ((members address).mp listed) byte low (by omega)
  · intro address free
    refine (sound.clean address free).congr fun byte low high => ?_
    exact agree address free byte (by omega) (by omega)

/-- A slab has a free slot if its count says so. -/
theorem Sound.free_eq_zero_iff (sound : Sound memory secret slab) :
    slab.free = 0 ↔ ∀ slot, slot < slab.count → slab.live slot = true := by
  obtain ⟨_, _, _, long, members⟩ := sound.threaded
  rw [← long, length_eq_zero_iff]
  constructor
  · rintro rfl slot inside
    by_contra dead
    have listed := (members (slab.address slot)).mpr
      ⟨slot, inside, (Bool.not_eq_true _).mp dead, rfl⟩
    cases listed
  · intro full
    refine eq_nil_iff_forall_not_mem.mpr fun address listed => ?_
    obtain ⟨slot, inside, dead, _⟩ := (members address).mp listed
    rw [full slot inside] at dead
    cases dead

/-! ### Lists of slabs -/

/-- The number of the latest slab of a cache among the first few. -/
def latest (pages : List Slab) (cache : Nat) : Nat → Nat
  | 0 => 0
  | index + 1 =>
      if (pages[index]?.map Slab.cache) = some cache then index + 1 else latest pages cache index

theorem latest_congr {others : List Slab}
    (same : ∀ index, index < bound → others[index]?.map Slab.cache = pages[index]?.map Slab.cache) :
    latest others cache bound = latest pages cache bound := by
  induction bound with
  | zero => rfl
  | succ bound ih =>
    rw [latest, latest, same bound (Nat.lt_succ_self _),
      ih fun index low => same index (Nat.lt_succ_of_lt low)]

/-- Where there is no latest slab, no slab is of the cache. -/
theorem latest_eq_zero (none_ : latest pages cache bound = 0) (inside : index < bound)
    (there : pages[index]? = some slab) : slab.cache ≠ cache := by
  induction bound with
  | zero => exact absurd inside (Nat.not_lt_zero _)
  | succ bound ih =>
    rw [latest] at none_
    split at none_
    case isTrue => cases none_
    case isFalse other =>
      by_cases last : index = bound
      · subst last
        rw [there] at other
        exact fun same => other (congrArg some same)
      · exact ih none_ (by omega)

/-- The latest slab is of the cache, and no later one is. -/
theorem latest_eq_succ {found : Nat} (last : latest pages cache bound = found + 1) :
    found < bound ∧ pages[found]?.map Slab.cache = some cache ∧
      ∀ index, found < index → index < bound → ∀ slab, pages[index]? = some slab →
        slab.cache ≠ cache := by
  induction bound with
  | zero => cases last
  | succ bound ih =>
    rw [latest] at last
    split at last
    case isTrue here =>
      cases last
      exact ⟨Nat.lt_succ_self _, here, fun index more less => by omega⟩
    case isFalse other =>
      obtain ⟨low, same, later⟩ := ih last
      refine ⟨Nat.lt_succ_of_lt low, same, fun index more less slab there => ?_⟩
      by_cases at_ : index = bound
      · subst at_
        rw [there] at other
        exact fun wrong => other (congrArg some wrong)
      · exact later index more (by omega) slab there

/-! ### Taking a slot -/

theorem run_check [Decidable condition] (reason : Error) (holds : condition) (slabs : Slabs) :
    Slabs.check condition reason slabs = (.ok (), slabs) := by
  rw [Slabs.check, Program.when, if_neg (not_not.mpr holds)]
  rfl

variable {α : Type}

theorem check_meets [Decidable condition] {next : Unit → Call α} {returns : α → Slabs → Prop}
    (rest : condition → (next ()).Meets slabs returns fails)
    (stops : ¬condition → fails reason slabs) :
    (Slabs.check condition reason >>= next).Meets slabs returns fails := by
  by_cases holds : condition
  · exact .step (run_check reason holds slabs) (rest holds)
  · have stopped : Slabs.check condition reason slabs = (.error reason, slabs) := by
      rw [Slabs.check, Program.when, if_pos holds]
      rfl
    exact .of_error (Program.bind_of_error stopped) (stops holds)

theorem check_passes [Decidable condition] {next : Unit → Call α} {returns : α → Slabs → Prop}
    (holds : condition) (rest : (next ()).Meets slabs returns fails) :
    (Slabs.check condition reason >>= next).Meets slabs returns fails :=
  check_meets (fun _ => rest) fun wrong => absurd holds wrong

/-- The rule of lookups that return. -/
theorem reads_returns {β : Type} {look : Slabs → Outcome Error α} {value : α} {next : α → Call β}
    {returns : β → Slabs → Prop} (found : look slabs = .ok value)
    (rest : (next value).Meets slabs returns fails) :
    (Program.reads look >>= next).Meets slabs returns fails :=
  .step (Prod.ext found rfl) rest

/-- A slab after a slot of it was taken. -/
def Slab.taken (slab : Slab) (slot next : Nat) : Slab :=
  { slab with live := Function.update slab.live slot true, head := next, free := slab.free - 1 }

/-- What taking a slot of a slab does. -/
structure Taken (slabs : Slabs) (index : Nat) (slab : Slab) (slot : Nat) (after : Slabs) :
    Prop where
  inside : slot < slab.count
  free : slab.live slot = false
  effect : ∃ next,
    after = { slabs with
      memory := slabs.memory.writeWord (slab.address slot) 0
      pages := slabs.pages.set index (slab.taken slot next)
      liveBytes := slabs.liveBytes + slab.stride
      allocations := slabs.allocations + 1 } ∧
    Sound after.memory after.secret (slab.taken slot next)
  zero : after.memory.ZeroOn (slab.address slot) slab.stride

/-- The free slots of a slab after one was taken. -/
theorem freeAt_taken (formed : slab.Formed) {address : Nat} :
    (slab.taken slot next).FreeAt address ↔ slab.FreeAt address ∧ address ≠ slab.address slot := by
  constructor
  · rintro ⟨other, inside, dead, rfl⟩
    have dead : Function.update slab.live slot true other = false := dead
    by_cases same : other = slot
    · rw [same, update_self] at dead
      cases dead
    · rw [update_of_ne same] at dead
      exact ⟨⟨other, inside, dead, rfl⟩, fun equal => same (formed.address_inj equal)⟩
  · rintro ⟨⟨other, inside, dead, rfl⟩, different⟩
    refine ⟨other, inside, ?_, rfl⟩
    show Function.update slab.live slot true other = false
    rw [update_of_ne fun same => different (congrArg slab.address same)]
    exact dead

/-- Clearing the link of the slot that was taken leaves the other free slots alone. -/
theorem Sound.taken {rest : List Nat} (sound : Sound memory secret slab)
    (threaded : Threaded (link memory secret) 0 next rest)
    (distinct : (slab.address slot :: rest).Nodup)
    (long : (slab.address slot :: rest).length = slab.free)
    (members : ∀ address, address ∈ slab.address slot :: rest ↔ slab.FreeAt address) :
    Sound (memory.writeWord (slab.address slot) 0) secret (slab.taken slot next) := by
  obtain ⟨away, restDistinct⟩ := nodup_cons.mp distinct
  have formed : (slab.taken slot next).Formed :=
    ⟨sound.formed.base, sound.formed.cache, sound.formed.stride, sound.formed.span,
      sound.formed.aligned, sound.formed.bound⟩
  have large := sound.formed.stride_ge
  have agree : ∀ address, (slab.taken slot next).FreeAt address →
      memory.AgreeOn (memory.writeWord (slab.address slot) 0) address slab.stride := by
    rintro address free byte low high
    obtain ⟨⟨other, _, _, rfl⟩, different⟩ := (freeAt_taken sound.formed).mp free
    have apart := slab.address_apart fun same : other = slot =>
      different (congrArg slab.address same)
    exact Memory.writeWord_of_outside memory 0 (by omega)
  have memberIff : ∀ address, address ∈ rest ↔ (slab.taken slot next).FreeAt address := by
    intro address
    rw [freeAt_taken sound.formed, ← members, mem_cons]
    constructor
    · exact fun listed => ⟨Or.inr listed, fun same => away (same ▸ listed)⟩
    · exact fun ⟨listed, different⟩ => listed.resolve_left different
  refine ⟨formed, ⟨rest, threaded.congr ?_, restDistinct, ?_, memberIff⟩, ?_⟩
  · intro address listed
    refine link_congr fun byte low high => ?_
    exact agree address ((memberIff address).mp listed) byte low (by omega)
  · show rest.length = slab.free - 1
    rw [← long, length_cons, Nat.add_sub_cancel]
  · intro address free
    have old := sound.clean address ((freeAt_taken sound.formed).mp free).1
    exact old.congr fun byte low high => agree address free byte (by omega)
      (by show byte < address + slab.stride; omega)

/-- A slab with a free slot gives it. -/
theorem take_meets (sound : Sound slabs.memory slabs.secret slab) (some_ : slab.free ≠ 0) :
    (Slabs.take index slab).Meets slabs
      (fun pointer after => ∃ slot, pointer = slab.address slot ∧ Taken slabs index slab slot after)
      fun _ _ => False := by
  obtain ⟨chain, threaded, distinct, long, members⟩ := sound.threaded
  have formed := sound.formed
  have large := formed.stride_ge
  cases chain with
  | nil => exact absurd long.symm some_
  | cons pointer rest =>
    obtain ⟨first, threaded⟩ := threaded
    obtain ⟨slot, inside, dead, rfl⟩ := (members pointer).mp mem_cons_self
    have away := (nodup_cons.mp distinct).1
    refine .gets ?_
    rw [first]
    refine reads_returns (formed.validateFree_address inside dead) ?_
    have linked : slabs.memory.readWord (slab.address slot) ^^^ slabs.secret ^^^
        slab.address slot = link slabs.memory slabs.secret (slab.address slot) := rfl
    rw [linked]
    generalize following : link slabs.memory slabs.secret (slab.address slot) = next at threaded
    have ending : (slab.free = 1 ↔ next = 0) ∧ (next ≠ 0 → ∃ other, other < slab.count ∧
        slab.live other = false ∧ next = slab.address other ∧ next ≠ slab.address slot) := by
      rw [← long]
      cases rest with
      | nil =>
        have ended : next = 0 := threaded
        exact ⟨iff_of_true rfl ended, fun more => absurd ended more⟩
      | cons second later =>
        obtain ⟨rfl, _⟩ := threaded
        have listed : next ∈ slab.address slot :: next :: later := by simp
        obtain ⟨other, within, free, rfl⟩ := (members next).mp listed
        refine ⟨iff_of_false (by simp) (formed.address_ne_zero other), fun _ =>
          ⟨other, within, free, rfl, ?_⟩⟩
        rintro same
        exact away (by rw [← same]; exact mem_cons_self)
    refine .bind (?_ : Program.Meets _ _ (fun _ after => after = slabs) _) ?_
    · refine .when (fun more => ?_) fun _ => rfl
      obtain ⟨_, within, free, rfl, different⟩ := ending.2 more
      exact reads_returns (formed.validateFree_address within free)
        (.of_ok (run_check .corrupt different slabs) rfl)
    · rintro _ _ rfl
      refine check_passes ending.1 (reads_returns (formed.slot_address inside) ?_)
      refine .changes (.changes (.changes (.pure ⟨slot, rfl, inside, dead, ⟨next, rfl, ?_⟩, ?_⟩)))
      · exact sound.taken threaded distinct long members
      · have clear := (sound.clean _ ((members _).mp mem_cons_self)).clear
        rw [show 8 + (slab.stride - 8) = slab.stride by omega] at clear
        exact clear

/-- The search takes a slot of some slab of the cache, or finds that every slab is full. -/
theorem search_meets (sound : ∀ slab ∈ slabs.pages, Sound slabs.memory slabs.secret slab)
    (nexts : ∀ index slab, slabs.pages[index]? = some slab →
      slab.next = latest slabs.pages slab.cache index) (remaining bound : Nat)
    (enough : bound ≤ remaining) (inside : bound ≤ slabs.pages.length) :
    (Slabs.search cache remaining (latest slabs.pages cache bound)).Meets slabs (fun result after =>
        (result = none ∧ after = slabs ∧ ∀ index, index < bound → ∀ slab,
          slabs.pages[index]? = some slab → slab.cache = cache → slab.free = 0) ∨
        ∃ index slab slot, result = some (slab.address slot) ∧ slabs.pages[index]? = some slab ∧
          slab.cache = cache ∧ Taken slabs index slab slot after) fun _ _ => False := by
  induction remaining generalizing bound with
  | zero =>
    have empty : bound = 0 := Nat.le_zero.mp enough
    subst empty
    exact .pure (Or.inl ⟨rfl, rfl, fun index low => absurd low (Nat.not_lt_zero _)⟩)
  | succ remaining ih =>
    cases last : latest slabs.pages cache bound with
    | zero =>
      refine .pure (Or.inl ⟨rfl, rfl, fun index low slab there same => ?_⟩)
      exact absurd same (latest_eq_zero last low there)
    | succ found =>
      obtain ⟨_, named, later⟩ := latest_eq_succ last
      obtain ⟨slab, there, same⟩ := Option.map_eq_some_iff.mp named
      have listed := mem_of_getElem? there
      refine .gets (check_passes (by omega) (.expect there (check_passes same ?_)))
      refine .ite (fun some_ => ?_) fun some_ => ?_
      · refine (take_meets (sound slab listed) some_).bind ?_
        rintro _ after ⟨slot, rfl, taken⟩
        exact .pure (Or.inr ⟨found, slab, slot, rfl, there, same, taken⟩)
      · have none_ : slab.free = 0 := not_not.mp some_
        obtain ⟨_, threaded, _, long, _⟩ := (sound slab listed).threaded
        rw [none_, length_eq_zero_iff] at long
        subst long
        refine check_passes threaded ?_
        rw [nexts found slab there, same]
        refine (ih found (by omega) (by omega)).imp ?_
        rintro _ after (⟨missing, unchanged, full⟩ | taken)
        · refine Or.inl ⟨missing, unchanged, fun index less other place equal => ?_⟩
          rcases Nat.lt_trichotomy index found with before | rfl | beyond
          · exact full index before other place equal
          · rw [there] at place
            cases place
            exact none_
          · exact absurd equal (later index beyond less other place)
        · exact Or.inr taken

/-! ### Giving a slot back -/

/-- A slab after a slot of it was given back. -/
def Slab.given (slab : Slab) (slot : Nat) : Slab :=
  { slab with
    live := Function.update slab.live slot false
    head := slab.address slot
    free := slab.free + 1 }

theorem freeAt_given {address : Nat} (inside : slot < slab.count) :
    (slab.given slot).FreeAt address ↔ slab.FreeAt address ∨ address = slab.address slot := by
  constructor
  · rintro ⟨other, within, dead, rfl⟩
    by_cases same : other = slot
    · exact Or.inr (congrArg slab.address same)
    · have dead : Function.update slab.live slot false other = false := dead
      rw [update_of_ne same] at dead
      exact Or.inl ⟨other, within, dead, rfl⟩
  · rintro (⟨other, within, dead, rfl⟩ | rfl)
    · refine ⟨other, within, ?_, rfl⟩
      show Function.update slab.live slot false other = false
      by_cases same : other = slot
      · rw [same, update_self]
      · rw [update_of_ne same]
        exact dead
    · exact ⟨slot, inside, update_self .., rfl⟩

/-- Storing the link of a slot that was cleared puts it at the head of the free slots. -/
theorem Sound.given (sound : Sound memory secret slab) (small : secret < 2 ^ 64)
    (inside : slot < slab.count) (live : slab.live slot = true)
    (agree : ∀ byte, byte < slab.address slot ∨ slab.address slot + slab.stride ≤ byte →
      other byte = memory byte) (clear : other.ZeroOn (slab.address slot) slab.stride) :
    Sound (other.writeWord (slab.address slot) (slab.head ^^^ secret ^^^ slab.address slot)) secret
      (slab.given slot) := by
  have formed := sound.formed
  have large := formed.stride_ge
  have bounded := formed.address_le inside
  have limit := formed.bound
  obtain ⟨chain, threaded, distinct, long, members⟩ := sound.threaded
  have away : ∀ address, slab.FreeAt address →
      address + slab.stride ≤ slab.address slot ∨ slab.address slot + slab.stride ≤ address := by
    rintro address ⟨free, within, dead, rfl⟩
    refine slab.address_apart ?_
    rintro rfl
    rw [live] at dead
    cases dead
  have kept : ∀ address, slab.FreeAt address → memory.AgreeOn
      (other.writeWord (slab.address slot) (slab.head ^^^ secret ^^^ slab.address slot))
      address slab.stride := by
    intro address free byte low high
    have apart := away address free
    rw [Memory.writeWord_of_outside other _ (by omega)]
    exact agree byte (by omega)
  have headSmall : slab.head < 2 ^ 64 := by
    cases chain with
    | nil =>
      have ended : slab.head = 0 := threaded
      omega
    | cons first rest =>
      obtain ⟨free, within, _, same⟩ := (members first).mp mem_cons_self
      have top := formed.address_le within
      rw [threaded.1, same]
      omega
  have linked := link_writeWord other small (show slab.address slot < 2 ^ 64 by omega) headSmall
  refine ⟨⟨formed.base, formed.cache, formed.stride, formed.span, formed.aligned, formed.bound⟩,
    ⟨slab.address slot :: chain, ⟨rfl, ?_⟩, ?_, ?_, ?_⟩, ?_⟩
  · rw [linked]
    refine threaded.congr fun address listed => link_congr fun byte low high => ?_
    exact kept address ((members address).mp listed) byte low (by omega)
  · refine nodup_cons.mpr ⟨fun listed => ?_, distinct⟩
    have apart := away _ ((members _).mp listed)
    omega
  · show chain.length + 1 = slab.free + 1
    rw [long]
  · intro address
    rw [freeAt_given inside, mem_cons, members address, or_comm]
  · intro address free byte low high
    have high : byte < address + 8 + (slab.stride - 8) := high
    rcases (freeAt_given inside).mp free with old | rfl
    · rw [kept address old byte (by omega) (by omega)]
      exact sound.clean address old byte low high
    · rw [Memory.writeWord_of_outside other _ (by omega)]
      exact clear byte (by omega) (by omega)

/-! ### Cutting a slab -/

theorem perm_shuffle (random : Nat → Nat) (draw last : Nat) (order : Array Nat) :
    (Slabs.shuffle random draw last order).toList.Perm order.toList := by
  induction last generalizing draw order with
  | zero => exact .refl _
  | succ last ih =>
    refine (ih _ _).trans ?_
    rw [Array.swapIfInBounds]
    split
    · split
      · exact Array.perm_iff_toList_perm.mp (Array.swap_perm _ _)
      · exact .refl _
    · exact .refl _

/-- Linking slots in an order makes a list of them in memory, and changes nothing but the links. -/
theorem thread_meets {base count : Nat} (order : List Nat) (distinct : order.Nodup)
    (inside : ∀ slot ∈ order, slot < count) (wide : 8 ≤ stride)
    (bound : base + count * stride < 2 ^ 64) (slabs : Slabs) (small : slabs.secret < 2 ^ 64) :
    (Slabs.thread base stride order).Meets slabs
      (fun _ after => ∃ memory, after = { slabs with memory := memory } ∧
        Threaded (link memory slabs.secret) 0 (Slabs.firstOf base stride order)
          (order.map fun slot => base + slot * stride) ∧
        ∀ byte, (∀ slot ∈ order, byte < base + slot * stride ∨ base + slot * stride + 8 ≤ byte) →
          memory byte = slabs.memory byte) fun _ _ => False := by
  induction order generalizing slabs with
  | nil => exact .pure ⟨slabs.memory, rfl, rfl, fun _ _ => rfl⟩
  | cons slot rest ih =>
    obtain ⟨away, restDistinct⟩ := nodup_cons.mp distinct
    have low : ∀ other, other < count → base + other * stride < 2 ^ 64 := by
      intro other less
      have product := Nat.mul_le_mul_right stride (Nat.le_of_lt less)
      omega
    have restInside : ∀ other ∈ rest, other < count :=
      (forall_mem_cons.mp inside).2
    have firstSmall : Slabs.firstOf base stride rest < 2 ^ 64 := by
      cases rest with
      | nil => exact Nat.pow_pos (Nat.succ_pos 1)
      | cons second later => exact low second (restInside second mem_cons_self)
    refine .gets (.changes ?_)
    refine (ih restDistinct restInside
      { slabs with memory := Memory.writeWord _ _ _ } small).imp ?_
    rintro _ _ ⟨memory, rfl, threaded, agree⟩
    refine ⟨memory, rfl, ⟨rfl, ?_⟩, ?_⟩
    · have linked : link memory slabs.secret (base + slot * stride) =
          Slabs.firstOf base stride rest := by
        refine Eq.trans (link_congr fun byte above below => agree byte ?_)
          (link_writeWord slabs.memory small (low slot (inside slot mem_cons_self)) firstSmall)
        intro other listed
        have different : slot ≠ other := fun same => away (same ▸ listed)
        rcases Nat.lt_or_gt_of_ne different with less | more
        · have product := Nat.mul_le_mul_right stride (Nat.succ_le_of_lt less)
          rw [Nat.succ_mul] at product
          omega
        · have product := Nat.mul_le_mul_right stride (Nat.succ_le_of_lt more)
          rw [Nat.succ_mul] at product
          omega
      rw [linked]
      exact threaded
    · intro byte outside
      rw [agree byte (forall_mem_cons.mp outside).2]
      exact Memory.writeWord_of_outside _ _ (outside slot mem_cons_self)

end Mmurtl.Heap

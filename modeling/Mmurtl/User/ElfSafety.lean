/-
This file proves that validated executables are safe to load: validation does not panic, and
an image that it accepts keeps its pages apart, inside the window and away from the stack, its
slices inside the file, and its relocations inside its writable segments.
-/

import Mmurtl.User.Elf

namespace Mmurtl.User

open Outcome List

variable {file : File} {at_ first second page machine : Nat} {segment : Segment} {pie : Bool}
  {headers : Headers} {tags : Tags} {image : Image}

/-! ### Readers -/

theorem rd8_safe (inside : at_ < file.val.length) : (rd8 file at_).Safe fun _ => True := by
  unfold rd8
  rw [if_pos inside]
  exact .pure trivial

theorem rd16_eq (inside : at_ + 2 ≤ file.val.length) :
    rd16 file at_ = .ok (Bytes.u16le file.val at_) := if_pos inside

theorem rd32_eq (inside : at_ + 4 ≤ file.val.length) :
    rd32 file at_ = .ok (Bytes.u32le file.val at_) := if_pos inside

theorem rd64_eq (inside : at_ + 8 ≤ file.val.length) :
    rd64 file at_ = .ok (Bytes.u64le file.val at_) := if_pos inside

theorem plus_eq (fits : first + second < 2 ^ 64) :
    plus first second = .ok (first + second) := if_pos fits

theorem checkedPlus_safe (first second : Nat) (reason : String) :
    (checkedPlus first second reason).Safe fun sum =>
      sum = first + second ∧ first + second < 2 ^ 64 := by
  unfold checkedPlus
  split
  case isTrue fits => exact .pure ⟨rfl, fits⟩
  case isFalse => exact .error reason

/-! ### Segments -/

/-- Where the last page of a segment ends. -/
def Segment.edge (segment : Segment) : Nat :=
  roundDown (segment.vaddr + segment.memsz + pageSize - 1)

/-- What every accepted segment satisfies. -/
structure Segment.Fits (segment : Segment) (file : File) (pie : Bool) : Prop where
  occupied : 0 < segment.memsz
  stored : segment.filesz ≤ segment.memsz
  inFile : segment.offset + segment.filesz ≤ file.val.length
  exclusive : ¬(segment.writable = true ∧ segment.executable = true)
  bounded : segment.vaddr + segment.memsz + pageSize - 1 < 2 ^ 64
  small : pie = true → segment.vaddr + segment.memsz ≤ maxImage
  placed : pie = false → base ≤ segment.vaddr ∧ segment.vaddr + segment.memsz ≤ imageLimit

/-- Two segments share no page. -/
def Segment.Apart (segment other : Segment) : Prop :=
  segment.edge ≤ roundDown other.vaddr ∨ other.edge ≤ roundDown segment.vaddr

theorem Segment.Fits.stop_eq (fits : segment.Fits file pie) :
    segment.stop = .ok (segment.vaddr + segment.memsz) := by
  have bounded := fits.bounded
  unfold pageSize at bounded
  exact plus_eq (by omega)

theorem Segment.Fits.overlaps_eq (fits : segment.Fits file pie) (first last : Nat) :
    segment.overlaps first last =
      .ok (decide (first < segment.edge ∧ roundDown segment.vaddr < last)) := by
  have sum : segment.vaddr + segment.memsz + (pageSize - 1) < 2 ^ 64 := fits.bounded
  unfold Segment.overlaps
  rw [fits.stop_eq, ok_bind, plus_eq sum]
  rfl

/-! ### The headers -/

/-- What holds after every program header. -/
structure Headers.Valid (headers : Headers) (file : File) : Prop where
  fits : ∀ segment ∈ headers.image.segments, segment.Fits file headers.image.pie
  apart : headers.image.segments.Pairwise Segment.Apart
  power : isPowerOfTwo headers.image.alignment
  aligned : pageSize ≤ headers.image.alignment
  limited : headers.image.pie = true → headers.image.alignment ≤ 65536
  whole : ∀ region, headers.image.relro = some region →
    pageSize ∣ region.start ∧ pageSize ∣ region.stop
  dynamic : ∀ va len offset, headers.dynamic = some (va, len, offset) → 16 ∣ len
  bare : headers.image.relocCount = 0

theorem isPowerOfTwo_max (one : isPowerOfTwo first) (two : isPowerOfTwo second) :
    isPowerOfTwo (max first second) := by
  rcases Nat.le_total first second with less | more
  · rw [Nat.max_eq_right less]
    exact two
  · rw [Nat.max_eq_left more]
    exact one

theorem readHeader_safe (inside : at_ + 56 ≤ file.val.length) :
    (readHeader file at_).Safe fun _ => True := by
  unfold readHeader
  rw [rd32_eq (by omega), ok_bind, rd32_eq (by omega), ok_bind,
    rd64_eq (by omega), ok_bind, rd64_eq (by omega), ok_bind,
    rd64_eq (by omega), ok_bind, rd64_eq (by omega), ok_bind]
  exact .pure trivial

theorem Headers.Valid.dynamicHeader (valid : headers.Valid file) (header : Header) :
    (dynamicHeader header headers).Safe fun after => after.Valid file := by
  unfold User.dynamicHeader
  split
  case isFalse => exact .pure valid
  case isTrue =>
    refine .check fun well => ?_
    refine .pure { valid with dynamic := fun va len offset same => ?_ }
    cases same
    exact Nat.dvd_of_mod_eq_zero well.2.2.2.2.1

theorem Headers.Valid.relroHeader (valid : headers.Valid file) (header : Header) (stop : Nat) :
    (relroHeader header stop headers).Safe fun after => after.Valid file := by
  unfold User.relroHeader
  split
  case isFalse => exact .pure valid
  case isTrue =>
    refine .check fun well => ?_
    refine .pure { valid with whole := fun region same => ?_ }
    cases same
    exact ⟨Nat.dvd_of_mod_eq_zero well.2.1, Nat.dvd_of_mod_eq_zero well.2.2⟩

theorem Headers.Valid.overlapping (valid : headers.Valid file) (first last : Nat) :
    (Outcome.any headers.image.segments fun segment => segment.overlaps first last).Safe
      fun shared => shared = true ↔ ∃ segment ∈ headers.image.segments,
        first < segment.edge ∧ roundDown segment.vaddr < last := by
  refine .any fun segment listed => ?_
  rw [(valid.fits segment listed).overlaps_eq first last]
  exact .pure decide_eq_true_iff

theorem flags_both {flags : Nat} (write : flags &&& 2 ≠ 0) (execute : flags &&& 1 ≠ 0) :
    flags &&& 3 = 3 := by
  have two : flags &&& 2 = (flags.testBit 1).toNat * 2 := Nat.and_two_pow flags 1
  have three : flags &&& 3 = flags % 4 := Nat.and_two_pow_sub_one_eq_mod flags 2
  have bit : flags.testBit 1 = decide (flags / 2 % 2 = 1) := Nat.testBit_eq_decide_div_mod_eq
  rw [Nat.and_one_is_mod] at execute
  rw [three]
  by_cases set_ : flags / 2 % 2 = 1
  · omega
  · rw [two, bit, decide_eq_false set_] at write
    exact absurd rfl write

theorem Headers.Valid.loadHeader (valid : headers.Valid file) {header : Header} {stop : Nat}
    (inside : at_ + 56 ≤ file.val.length) (sum : stop = header.va + header.memsz)
    (occupied : header.memsz ≠ 0) :
    (loadHeader file base imageLimit at_ header stop headers).Safe
      fun after => after.Valid file := by
  unfold User.loadHeader
  rw [rd64_eq (by omega), ok_bind]
  generalize Bytes.u64le file.val (at_ + 48) = align
  refine .check fun alignment => ?_
  refine .check fun limited => ?_
  refine .check fun _ => ?_
  refine .check fun stored => ?_
  refine .check fun exclusive => ?_
  refine .check fun small => ?_
  refine .check fun placed => ?_
  refine (checkedPlus_safe headers.total header.memsz _).bind fun total _ => ?_
  refine .check fun _ => ?_
  refine (checkedPlus_safe stop (pageSize - 1) _).bind fun rounded roundedIs => ?_
  refine (valid.overlapping (roundDown header.va) (roundDown rounded)).bind
    fun shared sharedIff => ?_
  refine .check fun alone => ?_
  refine .check fun _ => ?_
  obtain ⟨rfl, bounded⟩ := roundedIs
  subst sum
  have fits : Segment.Fits ⟨header.va, header.memsz, header.offset, header.filesz,
      header.flags &&& 2 ≠ 0, header.flags &&& 1 ≠ 0⟩ file headers.image.pie := {
    occupied := Nat.pos_of_ne_zero occupied
    stored := stored.1
    inFile := stored.2.2
    exclusive := fun both => exclusive (flags_both (of_decide_eq_true both.1)
      (of_decide_eq_true both.2))
    bounded := bounded
    small := fun pie => small.resolve_left (by rw [pie]; exact nofun)
    placed := fun fixed => placed.resolve_left (by rw [fixed]; exact nofun) }
  refine .pure {
    fits := forall_mem_append.mpr ⟨valid.fits, forall_mem_singleton.mpr fits⟩
    apart := ?_
    power := ?_
    aligned := Nat.le_trans valid.aligned (Nat.le_max_left ..)
    limited := fun pie => Nat.max_le.mpr ⟨valid.limited pie,
      limited.resolve_left (by rw [pie]; exact nofun)⟩
    whole := valid.whole
    dynamic := valid.dynamic
    bare := valid.bare }
  · refine pairwise_append.mpr ⟨valid.apart, pairwise_singleton .., ?_⟩
    intro segment listed _ new
    rw [mem_singleton.mp new]
    have none_ : ¬∃ segment ∈ headers.image.segments, _ := fun found => by
      rw [sharedIff.mpr found] at alone
      cases alone
    by_cases below : segment.edge ≤ roundDown header.va
    · exact Or.inl below
    · refine Or.inr (Nat.le_of_not_lt fun above => none_ ⟨segment, listed, ?_⟩)
      exact ⟨Nat.lt_of_not_le below, above⟩
  · rcases alignment with tiny | ⟨power, _⟩
    · rw [show max headers.image.alignment align = headers.image.alignment from
        Nat.max_eq_left (Nat.le_trans tiny (Nat.le_trans (by decide) valid.aligned))]
      exact valid.power
    · exact isPowerOfTwo_max valid.power power

theorem Headers.Valid.programHeader (valid : headers.Valid file)
    (inside : at_ + 56 ≤ file.val.length) :
    (programHeader file base imageLimit headers at_).Safe fun after => after.Valid file := by
  refine (readHeader_safe inside).bind fun header _ => ?_
  refine (checkedPlus_safe header.va header.memsz _).bind fun stop sum => ?_
  refine .check fun _ => ?_
  refine .check fun _ => ?_
  refine (valid.dynamicHeader header).bind fun first validFirst => ?_
  refine (validFirst.relroHeader header stop).bind fun second validSecond => ?_
  split
  case isTrue => exact .pure validSecond
  case isFalse loaded =>
    exact validSecond.loadHeader inside sum.1 fun empty => loaded (Or.inr empty)

/-! ### Ranges of the file -/

/-- A range of addresses that is found in the file is inside it. -/
theorem fileRange_safe {segments : List Segment} {va len : Nat}
    (fits : ∀ segment ∈ segments, segment.Fits file pie) :
    (fileRange segments va len).Safe fun found =>
      ∀ place, found = some place → place + len ≤ file.val.length := by
  induction segments with
  | nil => exact .pure (by simp)
  | cons segment rest ih =>
    unfold fileRange
    split
    case isTrue here =>
      have inFile := (fits segment mem_cons_self).inFile
      rw [plus_eq (by omega), ok_bind]
      refine .pure fun place same => ?_
      cases same
      omega
    case isFalse =>
      exact ih (forall_mem_cons.mp fits).2

theorem dynamicTable_safe {offsets : List Nat}
    (inside : ∀ at_ ∈ offsets, at_ + 16 ≤ file.val.length) :
    (dynamicTable file offsets tags).Safe fun _ => True := by
  induction offsets generalizing tags with
  | nil => exact .error _
  | cons at_ rest ih =>
    have here := inside at_ mem_cons_self
    have later := fun tags => @ih tags
      (forall_mem_cons.mp inside).2
    unfold dynamicTable
    rw [rd64_eq (by omega), ok_bind, rd64_eq (by omega), ok_bind]
    generalize Bytes.u64le file.val at_ = tag
    generalize Bytes.u64le file.val (at_ + 8) = value
    repeat' split
    all_goals first | exact .error _ | exact later _ | exact .pure trivial

/-! ### Relocations -/

/-- Eight bytes of an image lie in one page of a writable segment. -/
def Image.Targets (image : Image) (target : Nat) : Prop :=
  ∃ segment ∈ image.segments, segment.writable = true ∧
    segment.vaddr ≤ target ∧ target + 8 ≤ segment.vaddr + segment.memsz ∧
    ∃ page ∈ segment.pages, page ≤ target ∧ target + 8 ≤ page + pageSize

theorem Segment.Fits.takesTarget (fits : segment.Fits file pie) (target : Nat) :
    (segment.takesTarget target).Safe fun inside => inside = true ↔
      segment.writable = true ∧ segment.vaddr ≤ target ∧
        target + 8 ≤ segment.vaddr + segment.memsz := by
  have bounded := fits.bounded
  unfold pageSize at bounded
  unfold Segment.takesTarget
  split
  case isTrue well =>
    rw [fits.stop_eq, ok_bind]
    refine .pure ?_
    simp [well]
  case isFalse ill =>
    refine .pure (iff_of_false (by simp) fun both => ill ⟨both.1, both.2.1, ?_⟩)
    omega

/-- The pages of a segment are those between its first and its last. -/
theorem Segment.mem_pages_iff :
    page ∈ segment.pages ↔
      pageSize ∣ page ∧ roundDown segment.vaddr ≤ page ∧ page < segment.edge := by
  unfold Segment.pages Segment.edge roundDown pageSize
  constructor
  · intro listed
    obtain ⟨i, inside, rfl⟩ := mem_map.mp listed
    have inside := mem_range.mp inside
    refine ⟨Nat.dvd_add (Nat.dvd_mul_left ..) (Nat.dvd_mul_left ..), ?_, ?_⟩ <;> omega
  · rintro ⟨⟨quotient, rfl⟩, _, _⟩
    refine mem_map.mpr ⟨quotient - segment.vaddr / 4096, mem_range.mpr ?_, ?_⟩ <;> omega

/-- A page of a segment holds each of its addresses. -/
theorem Segment.mem_pages {address : Nat} (low : segment.vaddr ≤ address)
    (high : address < segment.vaddr + segment.memsz) : roundDown address ∈ segment.pages := by
  refine Segment.mem_pages_iff.mpr ⟨Nat.dvd_mul_left .., ?_, ?_⟩
  · unfold roundDown pageSize
    omega
  · unfold Segment.edge roundDown pageSize
    omega

theorem checkRelocation_safe {relative : Nat}
    (fits : ∀ segment ∈ image.segments, segment.Fits file image.pie)
    (inside : at_ + 24 ≤ file.val.length) :
    (checkRelocation file image.segments relative at_).Safe
      fun _ => image.Targets (Bytes.u64le file.val at_) := by
  unfold checkRelocation
  rw [rd64_eq (by omega), ok_bind, rd64_eq (by omega), ok_bind]
  refine .check fun _ => ?_
  refine .check fun aligned => ?_
  refine (Safe.any fun segment listed =>
    (fits segment listed).takesTarget _).bind fun found foundIff => ?_
  refine .check fun isFound => ?_
  obtain ⟨segment, listed, writable, low, high⟩ := foundIff.mp isFound
  rw [rd64_eq (by omega), ok_bind]
  refine .checkLast fun _ => ?_
  refine ⟨segment, listed, writable, low, high, _, Segment.mem_pages low (by omega), ?_, ?_⟩
  · exact Nat.div_mul_le_self ..
  · unfold roundDown pageSize
    omega

/-! ### Images -/

/-- What every accepted image satisfies. -/
structure Image.Valid (image : Image) (file : File) : Prop where
  fits : ∀ segment ∈ image.segments, segment.Fits file image.pie
  apart : image.segments.Pairwise Segment.Apart
  power : isPowerOfTwo image.alignment
  aligned : pageSize ≤ image.alignment
  limited : image.pie = true → image.alignment ≤ 65536
  entered : ∃ segment ∈ image.segments, segment.executable = true ∧
    segment.vaddr ≤ image.entry ∧ image.entry < segment.vaddr + segment.memsz
  relro : ∀ region, image.relro = some region → ∃ segment ∈ image.segments,
    segment.writable = true ∧ segment.vaddr ≤ region.start ∧
      region.stop ≤ segment.vaddr + segment.memsz
  whole : ∀ region, image.relro = some region → pageSize ∣ region.start ∧ pageSize ∣ region.stop
  located : ∀ i < image.relocCount, image.relocFile + i * 24 + 24 ≤ file.val.length
  targets : ∀ i < image.relocCount,
    image.Targets (Bytes.u64le file.val (image.relocFile + i * 24))

theorem checkRelocations_safe (valid : image.Valid file) :
    (checkRelocations file machine image tags).Safe fun after => after.Valid file := by
  unfold checkRelocations
  split
  · exact .pure valid
  · rename_i va len
    split
    case isFalse => exact .error _
    case isTrue described =>
      refine (fileRange_safe valid.fits).bind fun found inFile => ?_
      cases found with
      | none => exact .error _
      | some place =>
        have inFile := inFile place rfl
        have each : ∀ i ∈ List.range (len / 24), place + i * 24 + 24 ≤ file.val.length := by
          intro i listed
          have listed := mem_range.mp listed
          omega
        have kind : (relativeKind machine).Safe fun _ => True := by
          unfold relativeKind
          repeat' split
          all_goals first | exact .pure trivial | exact .error _
        refine kind.bind fun relative _ => ?_
        refine (Safe.each fun i listed =>
          checkRelocation_safe valid.fits (each i listed)).bind fun _ checked => .pure ?_
        exact { valid with
          located := fun i below => each i (mem_range.mpr below)
          targets := fun i below => checked i (mem_range.mpr below) }
  · exact .error _

theorem Headers.Valid.dynamicImage (valid : headers.Valid file)
    (imageValid : headers.image.Valid file) :
    (dynamicImage file machine headers).Safe fun image => image.Valid file := by
  unfold User.dynamicImage
  split
  · exact .pure imageValid
  · rename_i va len offset dynamic
    refine (fileRange_safe valid.fits).bind fun found inFile => ?_
    cases found with
    | none => exact .error _
    | some place =>
      have inFile := inFile place rfl
      refine .check fun _ => ?_
      rw [plus_eq (by omega), ok_bind]
      refine Safe.bind (dynamicTable_safe fun at_ listed => ?_)
        fun tags _ => checkRelocations_safe imageValid
      obtain ⟨i, inside, rfl⟩ := mem_map.mp listed
      have inside := mem_range.mp inside
      obtain ⟨_, rfl⟩ := valid.dynamic va len offset dynamic
      omega

theorem Segment.Fits.holdsEntry (fits : segment.Fits file pie) (entry : Nat) :
    (segment.holdsEntry entry).Safe fun inside => inside = true ↔
      segment.executable = true ∧ segment.vaddr ≤ entry ∧
        entry < segment.vaddr + segment.memsz := by
  unfold Segment.holdsEntry
  split
  case isTrue well =>
    rw [fits.stop_eq, ok_bind]
    refine .pure ?_
    simp [well]
  case isFalse ill =>
    exact .pure (iff_of_false (by simp) fun both => ill ⟨both.1, both.2.1⟩)

theorem Segment.Fits.holdsRegion (fits : segment.Fits file pie) (region : Region) :
    (segment.holdsRegion region).Safe fun inside => inside = true ↔
      segment.writable = true ∧ segment.vaddr ≤ region.start ∧
        region.stop ≤ segment.vaddr + segment.memsz := by
  unfold Segment.holdsRegion
  split
  case isTrue well =>
    rw [fits.stop_eq, ok_bind]
    refine .pure ?_
    simp [well]
  case isFalse ill =>
    exact .pure (iff_of_false (by simp) fun both => ill ⟨both.1, both.2.1⟩)

theorem checkRelro_safe (fits : ∀ segment ∈ image.segments, segment.Fits file image.pie) :
    (checkRelro image).Safe fun _ => ∀ region, image.relro = some region →
      ∃ segment ∈ image.segments, segment.writable = true ∧ segment.vaddr ≤ region.start ∧
        region.stop ≤ segment.vaddr + segment.memsz := by
  unfold checkRelro
  split
  case h_1 absent =>
    refine .pure fun region present => ?_
    rw [absent] at present
    cases present
  case h_2 region present =>
    refine (Safe.any fun segment listed =>
      (fits segment listed).holdsRegion region).bind fun found foundIff => ?_
    refine .checkLast fun isFound other same => ?_
    rw [present] at same
    cases same
    exact foundIff.mp isFound

/-! ### Files -/

theorem fileHeader_safe (file : File) (machine : Nat) :
    (fileHeader file machine).Safe fun header =>
      64 ≤ file.val.length ∧ 56 ≤ header.2.2.1 ∧
        header.2.1 + header.2.2.1 * header.2.2.2 ≤ file.val.length := by
  refine .check fun long => ?_
  have long := long.1
  refine (rd8_safe (by omega)).bind fun wide _ => ?_
  refine (rd8_safe (by omega)).bind fun order _ => ?_
  refine (rd8_safe (by omega)).bind fun version _ => ?_
  rw [rd32_eq (by omega), ok_bind]
  refine .check fun _ => ?_
  rw [rd16_eq (by omega), ok_bind]
  have kind : (executableKind (Bytes.u16le file.val 16)).Safe fun _ => True := by
    unfold executableKind
    repeat' split
    all_goals first | exact .pure trivial | exact .error _
  refine kind.bind fun pie _ => ?_
  rw [rd16_eq (by omega), ok_bind]
  refine .check fun _ => ?_
  rw [rd16_eq (by omega), ok_bind]
  refine .check fun _ => ?_
  rw [rd64_eq (by omega), ok_bind, rd16_eq (by omega), ok_bind, rd16_eq (by omega), ok_bind]
  refine .check fun table => .pure ⟨long, table.1, table.2.2.2.2⟩

/-- Validation does not panic, and the images it accepts are valid. -/
theorem parse_safe (file : File) (machine : Nat) :
    (parse file machine base imageLimit).Safe fun image => image.Valid file := by
  refine (fileHeader_safe file machine).bind fun header table => ?_
  obtain ⟨pie, _, size, count⟩ := header
  obtain ⟨_, wide, inFile⟩ := table
  dsimp only at wide inFile ⊢
  rw [rd64_eq (by omega), ok_bind]
  have start : Headers.Valid ⟨⟨Bytes.u64le file.val 24, pie, pageSize, [], none, 0, 0⟩, none, 0⟩
      file := {
    fits := nofun
    apart := List.Pairwise.nil
    power := show isPowerOfTwo pageSize by decide
    aligned := Nat.le_refl _
    limited := fun _ => show pageSize ≤ 65536 by decide
    whole := nofun
    dynamic := nofun
    bare := rfl }
  refine (Safe.foldlM (fun headers => headers.Valid file) start
    fun headers at_ listed valid => ?_).bind fun headers valid => ?_
  · obtain ⟨i, below, rfl⟩ := mem_map.mp listed
    have room : (i + 1) * size ≤ size * count := by
      rw [Nat.mul_comm]
      exact Nat.mul_le_mul_left _ (mem_range.mp below)
    rw [Nat.add_mul, Nat.one_mul] at room
    exact valid.programHeader (by omega)
  · refine (Safe.any fun segment listed =>
      (valid.fits segment listed).holdsEntry headers.image.entry).bind fun found foundIff => ?_
    refine .check fun entered => ?_
    refine (checkRelro_safe valid.fits).bind fun _ relro => ?_
    refine valid.dynamicImage {
      fits := valid.fits
      apart := valid.apart
      power := valid.power
      aligned := valid.aligned
      limited := valid.limited
      entered := foundIff.mp entered
      relro := relro
      whole := valid.whole
      located := fun i below => absurd below (by rw [valid.bare]; exact Nat.not_lt_zero i)
      targets := fun i below => absurd below (by rw [valid.bare]; exact Nat.not_lt_zero i) }

/-! ### Loading -/

/-- What makes an image safe to load at a bias, with the stack of a layout. -/
structure Image.Loadable (image : Image) (file : File) (layout : Layout) (bias : Nat) : Prop where
  exclusive : ∀ segment ∈ image.segments,
    ¬(segment.writable = true ∧ segment.executable = true)
  disjoint : image.segments.Pairwise fun segment other =>
    ∀ page ∈ segment.pages, page ∉ other.pages
  inside : ∀ segment ∈ image.segments, ∀ page ∈ segment.pages,
    base ≤ bias + page ∧ bias + page + pageSize ≤ imageLimit
  away : ∀ segment ∈ image.segments, ∀ page ∈ segment.pages,
    ∀ other, other ∈ layout.stack ∨ other ∈ layout.guards → bias + page + pageSize ≤ other
  slices : ∀ segment ∈ image.segments, ∀ page ∈ segment.pages,
    ∃ data, segment.pageData file page = .ok data
  targets : ∀ relocation ∈ image.relocations file,
    ∃ target addend, relocation = .ok (target, addend) ∧ image.Targets target
  entered : ∃ segment ∈ image.segments, segment.executable = true ∧
    segment.vaddr ≤ image.entry ∧ image.entry < segment.vaddr + segment.memsz
  relro : ∀ region, image.relro = some region → ∀ page, pageSize ∣ page →
    region.start < page + pageSize → page < region.stop →
    ∃ segment ∈ image.segments, segment.writable = true ∧ page ∈ segment.pages

theorem Image.Valid.bias_eq (valid : image.Valid file) (code stack sp : Nat) :
    ∃ bias, image.bias (choose code stack sp) = .ok bias ∧ pageSize ∣ bias ∧
      (image.pie = true → base ≤ bias ∧ bias ≤ base + 2 ^ 37 + 65536) ∧
      (image.pie = false → bias = 0) := by
  unfold Image.bias
  cases pie : image.pie with
  | false => exact ⟨0, rfl, Nat.dvd_zero _, nofun, fun _ => rfl⟩
  | true =>
    have aligned : pageSize ≤ image.alignment ∧ image.alignment ≤ 65536 ∧
        isPowerOfTwo image.alignment := ⟨valid.aligned, valid.limited pie, valid.power⟩
    have placed : (choose code stack sp).imageBias image.alignment = .ok _ := if_pos aligned
    exact ⟨_, placed, imageBias_dvd placed, fun _ => imageBias_bounds placed, nofun⟩

/-- The pages of an accepted segment lie in the part of the window for images. -/
theorem Segment.Fits.page_bounds {bias : Nat} (fits : segment.Fits file pie)
    (listed : page ∈ segment.pages)
    (moved : pie = true → base ≤ bias ∧ bias ≤ base + 2 ^ 37 + 65536)
    (still : pie = false → bias = 0) :
    base ≤ bias + page ∧ bias + page + pageSize ≤ imageLimit := by
  obtain ⟨⟨_, rfl⟩, low, high⟩ := Segment.mem_pages_iff.mp listed
  unfold Segment.edge roundDown at high
  unfold roundDown at low
  cases pie with
  | true =>
    have small := fits.small rfl
    obtain ⟨above, below⟩ := moved rfl
    unfold maxImage at small
    unfold pageSize at low high ⊢
    unfold imageLimit
    generalize base = base at above below ⊢
    omega
  | false =>
    have placed := fits.placed rfl
    rw [still rfl]
    unfold imageLimit base at *
    unfold pageSize at low high ⊢
    omega

theorem Segment.Fits.pageData_eq (fits : segment.Fits file pie) (page : Nat) :
    ∃ data, segment.pageData file page = .ok data := by
  have inFile := fits.inFile
  unfold Segment.pageData
  dsimp only
  split
  case isFalse => exact ⟨_, rfl⟩
  case isTrue part =>
    rw [if_pos (by omega)]
    exact ⟨_, rfl⟩

/-- Validated images are safe to load, wherever they are placed. -/
theorem Image.Valid.loadable (valid : image.Valid file) (code stack sp : Nat) :
    ∃ bias, image.bias (choose code stack sp) = .ok bias ∧
      image.Loadable file (choose code stack sp) bias := by
  obtain ⟨bias, placed, _, moved, still⟩ := valid.bias_eq code stack sp
  have inside : ∀ segment ∈ image.segments, ∀ page ∈ segment.pages,
      base ≤ bias + page ∧ bias + page + pageSize ≤ imageLimit :=
    fun segment listed page paged => (valid.fits segment listed).page_bounds paged moved still
  refine ⟨bias, placed, {
    exclusive := fun segment listed => (valid.fits segment listed).exclusive
    disjoint := valid.apart.imp fun apart page inFirst inSecond => ?_
    inside := inside
    away := fun segment listed page paged other reserved =>
      Nat.le_trans (inside segment listed page paged).2 (stack_bounds reserved).1
    slices := fun segment listed page _ => (valid.fits segment listed).pageData_eq page
    targets := fun relocation listed => ?_
    entered := valid.entered
    relro := fun region present page aligned start stop => ?_ }⟩
  · obtain ⟨_, _, _⟩ := Segment.mem_pages_iff.mp inFirst
    obtain ⟨_, _, _⟩ := Segment.mem_pages_iff.mp inSecond
    rcases apart with below | above <;> omega
  · obtain ⟨i, below, rfl⟩ := mem_map.mp listed
    have below := mem_range.mp below
    have located := valid.located i below
    refine ⟨_, Bytes.u64le file.val (image.relocFile + i * 24 + 16), ?_, valid.targets i below⟩
    rw [rd64_eq (by omega), ok_bind, rd64_eq (by omega)]
    rfl
  · obtain ⟨segment, listed, writable, _, high⟩ := valid.relro region present
    refine ⟨segment, listed, writable, ?_⟩
    obtain ⟨⟨_, startIs⟩, _⟩ := valid.whole region present
    obtain ⟨number, rfl⟩ := aligned
    unfold pageSize at startIs start
    have paged := Segment.mem_pages
      (show segment.vaddr ≤ pageSize * number by unfold pageSize; omega)
      (Nat.lt_of_lt_of_le stop high)
    rwa [show roundDown (pageSize * number) = pageSize * number from
      Nat.div_mul_cancel (Nat.dvd_mul_right ..)] at paged

/-- **Validation makes loading safe**: it never panics, and every image it accepts can be loaded
at every random placement. -/
theorem parse_makes_loadable (file : File) (machine : Nat) :
    (parse file machine base imageLimit).Safe fun image =>
      ∀ code stack sp, ∃ bias, image.bias (choose code stack sp) = .ok bias ∧
        image.Loadable file (choose code stack sp) bias :=
  (parse_safe file machine).mono fun _ valid code stack sp => valid.loadable code stack sp

end Mmurtl.User

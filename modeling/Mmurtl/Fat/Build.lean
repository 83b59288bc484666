/-
This file proves what the driver builds for a new record: the short name it chooses is
printable, in upper case and not in use, the long-name entries and the short entry are
read as such, and the short entry holds the first cluster and the size.
-/

import Mmurtl.Fat.Layout
import Mmurtl.Fat.Slots

namespace Mmurtl.Fat

open Bytes List

variable {c : Char} {number index : Nat} {byte : UInt8} {part : List UInt8}
  {taken : List (List UInt8)} {name : List Char}

/-! ### Short names -/

/-- A byte that the driver puts into a short name. -/
def ShortByte (byte : UInt8) : Prop :=
  0x21 ≤ byte ∧ byte < 0x7f ∧ byte ≠ 0x2e ∧ ¬(0x61 ≤ byte ∧ byte ≤ 0x7a)

instance (byte : UInt8) : Decidable (ShortByte byte) :=
  inferInstanceAs (Decidable (_ ∧ _))

/-- A property of the ASCII characters holds of all if it holds of their code points. -/
theorem ascii_cases (property : Char → Prop) (all : ∀ code < 128, property (Char.ofNat code))
    (ascii : c.toNat < 128) : property c := by
  have holds := all c.toNat ascii
  rwa [Char.ofNat_toNat] at holds

/-- A property of bytes holds of all if it holds of their values. -/
theorem byte_cases (property : UInt8 → Prop) (all : ∀ value < 256, property (UInt8.ofNat value))
    (byte : UInt8) : property byte := by
  have holds := all byte.toNat (UInt8.toNat_lt byte)
  rwa [UInt8.ofNat_toNat] at holds

theorem ascii_of_isAlphanum (alphanumeric : c.isAlphanum = true) : c.toNat < 128 := by
  simp only [Char.isAlphanum, Char.isAlpha, Char.isUpper, Char.isLower, Char.isDigit,
    Bool.or_eq_true, Bool.and_eq_true, decide_eq_true_eq, ge_iff_le, UInt32.le_iff_toNat_le]
    at alphanumeric
  have value : c.toNat = c.val.toNat := rfl
  have constants : 'Z'.val.toNat = 90 ∧ 'z'.val.toNat = 122 ∧ '9'.val.toNat = 57 :=
    ⟨rfl, rfl, rfl⟩
  omega

theorem ascii_of_punctuation (member : shortPunctuation.contains c.toNat = true) :
    c.toNat < 128 := by
  have bound : ∀ code ∈ shortPunctuation, code < 128 := by decide
  exact bound _ (contains_iff_mem.mp member)

theorem shortChar_of_not_ascii (far : ¬c.toNat < 128) : shortChar c = 0x5f := by
  refine if_neg fun known => far ?_
  rcases Bool.or_eq_true_iff.mp known with alphanumeric | punctuation
  · exact ascii_of_isAlphanum alphanumeric
  · exact ascii_of_punctuation punctuation

theorem shortByte_shortChar (c : Char) : ShortByte (shortChar c) := by
  by_cases ascii : c.toNat < 128
  · exact ascii_cases (fun c => ShortByte (shortChar c)) (by decide) ascii
  · rw [shortChar_of_not_ascii ascii]
    decide

variable {size : Nat}

theorem shortByte_of_mem_digits (member : byte ∈ digits size number) : ShortByte byte := by
  induction size generalizing number with
  | zero => cases member
  | succ size ih =>
    rw [digits] at member
    split at member
    · cases member
    · rcases mem_append.mp member with before | last
      · exact ih before
      · rw [mem_singleton.mp last]
        have all : ∀ digit < 10, ShortByte (UInt8.ofNat (0x30 + digit)) := by decide
        exact all _ (Nat.mod_lt _ (by decide))

theorem length_digits (size number : Nat) : (digits size number).length ≤ size := by
  induction size generalizing number with
  | zero => exact Nat.le_refl _
  | succ size ih =>
    rw [digits]
    split
    · exact Nat.zero_le _
    · rw [length_append]
      exact Nat.succ_le_succ (ih _)

/-- A short name made of a base and an extension, both filled up with spaces. -/
structure Padded (short base extension : List UInt8) : Prop where
  eq : short = padded 8 base ++ padded 3 extension
  base_ne : base ≠ []
  base_length : base.length ≤ 8
  extension_length : extension.length ≤ 3
  base_bytes : ∀ byte ∈ base, ShortByte byte
  extension_bytes : ∀ byte ∈ extension, ShortByte byte

theorem length_padded (fits : part.length ≤ size) : (padded size part).length = size := by
  rw [padded, length_append, length_replicate]
  omega

variable {short : List UInt8}

theorem Padded.length {base extension : List UInt8} (padded : Padded short base extension) :
    short.length = 11 := by
  rw [padded.eq, length_append, length_padded padded.base_length,
    length_padded padded.extension_length]

theorem length_le_utf8Length (name : List Char) : name.length ≤ utf8Length name := by
  induction name with
  | nil => exact Nat.le_refl _
  | cons c rest ih =>
    have positive : 0 < c.utf8Size := Char.utf8Size_pos c
    simp only [utf8Length, map_cons, sum_cons, length_cons] at *
    omega

theorem directName_padded {base extension : List Char} (simple : simpleName base extension = true) :
    Padded (directName base extension) (base.map shortChar) (extension.map shortChar) := by
  simp only [simpleName, Bool.and_eq_true, Bool.not_eq_true', isEmpty_eq_false_iff,
    decide_eq_true_eq] at simple
  obtain ⟨⟨⟨some_, baseShort⟩, extensionShort⟩, _⟩ := simple
  refine ⟨rfl, by simpa using some_, ?_, ?_, ?_, ?_⟩
  · rw [length_map]
    exact Nat.le_trans (length_le_utf8Length base) baseShort
  · rw [length_map]
    exact Nat.le_trans (length_le_utf8Length extension) extensionShort
  · intro _ member
    obtain ⟨c, _, rfl⟩ := mem_map.mp member
    exact shortByte_shortChar c
  · intro _ member
    obtain ⟨c, _, rfl⟩ := mem_map.mp member
    exact shortByte_shortChar c

theorem numberedName_padded (base extension : List Char) (number : Nat) :
    ∃ part, Padded (numberedName base extension number) part
      ((extension.take 3).map shortChar) := by
  have tail := length_digits 6 number
  refine ⟨_, rfl, ?_, ?_, ?_, ?_, ?_⟩
  · simp
  · simp only [length_append, length_take, length_cons]
    omega
  · rw [length_map, length_take]
    omega
  · intro _ member
    rcases mem_append.mp member with kept | rest
    · obtain ⟨c, _, rfl⟩ := mem_map.mp (mem_of_mem_take kept)
      exact shortByte_shortChar c
    · rcases mem_cons.mp rest with rfl | digit
      · decide
      · exact shortByte_of_mem_digits digit
  · intro _ member
    obtain ⟨c, _, rfl⟩ := mem_map.mp member
    exact shortByte_shortChar c

theorem searchName_spec {base extension : List Char} {steps : Nat}
    (found : searchName base extension taken steps number = .ok short) :
    short ∉ taken ∧ ∃ number, short = numberedName base extension number := by
  induction steps generalizing number with
  | zero => cases found
  | succ steps ih =>
    rw [searchName] at found
    split at found
    · exact ih found
    · rename_i free
      cases found
      exact ⟨fun member => free (contains_iff_mem.mpr member), number, rfl⟩

/-- A chosen short name has the form of one and is not in use. -/
theorem shortName_spec (found : shortName name taken = .ok short) :
    short ∉ taken ∧ ∃ base extension, Padded short base extension := by
  rw [shortName] at found
  simp only at found
  split at found
  · rename_i simple
    cases found
    rw [Bool.and_eq_true] at simple
    refine ⟨fun member => ?_, _, _, directName_padded simple.1⟩
    have free := simple.2
    rw [contains_iff_mem.mpr member] at free
    cases free
  · obtain ⟨free, number, rfl⟩ := searchName_spec found
    obtain ⟨part, padded⟩ := numberedName_padded (splitExtension name).1 (splitExtension name).2
      number
    exact ⟨free, part, _, padded⟩

/-! ### Short names as text -/

theorem ShortByte.ne_space (short : ShortByte byte) : byte ≠ 0x20 := by
  rintro rfl
  exact absurd short (by decide)

theorem trimmed_padded (bytes : ∀ byte ∈ part, ShortByte byte) :
    trimmed (padded size part) = part := by
  rw [trimmed, padded, reverse_append, reverse_replicate,
    dropWhile_append_of_pos (by intro _ member; rw [eq_of_mem_replicate member]; rfl)]
  have stays : part.reverse.dropWhile (· == 0x20) = part.reverse := by
    cases reversed : part.reverse with
    | nil => rfl
    | cons last rest =>
      have member : last ∈ part := by
        rw [← mem_reverse, reversed]
        exact mem_cons_self
      exact dropWhile_cons_of_neg (by simpa using (bytes last member).ne_space)
  rw [stays, reverse_reverse]

set_option maxRecDepth 4096 in
theorem oemChar_ne_dot (short : ShortByte byte) : oemChar byte ≠ '.' :=
  byte_cases (fun byte => ShortByte byte → oemChar byte ≠ '.') (by decide) byte short

section Text

variable [CaseMapping] {base extension : List UInt8}

theorem aliasPart_false (part : List UInt8) : aliasPart part false = part.map oemChar := by
  exact map_eq_flatMap.symm

/-- A chosen short name as text. -/
theorem Padded.aliasName (padded : Padded short base extension) :
    aliasName short 0 =
      base.map oemChar ++ if extension = [] then [] else '.' :: extension.map oemChar := by
  have front : short.take 8 = Fat.padded 8 base := by
    rw [padded.eq, take_append_of_le_length (Nat.le_of_eq (length_padded padded.base_length).symm),
      take_of_length_le (Nat.le_of_eq (length_padded padded.base_length))]
  have back : short.drop 8 = Fat.padded 3 extension := by
    rw [padded.eq, drop_append, drop_of_length_le
      (Nat.le_of_eq (length_padded padded.base_length)), length_padded padded.base_length]
    rfl
  have plain : unescaped base = base := by
    cases base with
    | nil => rfl
    | cons first rest =>
      have different : first ≠ 5 := by
        rintro rfl
        exact absurd (padded.base_bytes 5 mem_cons_self) (by decide)
      rw [unescaped, if_neg different]
  simp only [Fat.aliasName, front, back, trimmed_padded padded.base_bytes,
    trimmed_padded padded.extension_bytes, plain]
  rw [show ((0 : UInt8) &&& 8 != 0) = false from rfl,
    show ((0 : UInt8) &&& 16 != 0) = false from rfl,
    aliasPart_false, aliasPart_false]

/-- A short entry with a chosen name is read as a record. -/
theorem mark_of_padded {entry : List UInt8} (padded : Padded (entry.take 11) base extension)
    (case : field entry 12 = 0) (long : field entry 11 ≠ 0x0f) (label : field entry 11 &&& 8 = 0) :
    mark entry = .short := by
  obtain ⟨first, rest, cons⟩ := exists_cons_of_ne_nil padded.base_ne
  have short : ShortByte first := padded.base_bytes first (cons ▸ mem_cons_self)
  have head : field entry 0 = first := by
    have found : (entry.take 11)[0]? = some first := by
      rw [padded.eq, Fat.padded, cons]
      rfl
    rw [getElem?_take_of_lt (by decide)] at found
    rw [field, found]
    rfl
  have text : aliasName (entry.take 11) 0 = oemChar first :: (rest.map oemChar ++
      if extension = [] then [] else '.' :: extension.map oemChar) := by
    rw [padded.aliasName, cons]
    rfl
  have notDot : oemChar first ≠ '.' := oemChar_ne_dot short
  have named : skipped entry = false := by
    simp [skipped, case, label, text, notDot]
  unfold mark
  rw [head, if_neg (by rintro rfl; exact absurd short (by decide)),
    if_neg (by rintro rfl; exact absurd short (by decide)), if_neg long, named]
  rfl

end Text

/-! ### First cluster and size -/

/-- A short entry with another first cluster and size. -/
def retargeted (entry : List UInt8) (first size : Nat) (kind : Kind) : List UInt8 :=
  patch (putCluster entry first kind) 28 (le32 size)

/-- The cluster numbers that an entry has room for. -/
def clusterLimit (kind : Kind) : Nat := if kind = .fat32 then 268435456 else 65536

theorem modulus_le_clusterLimit (kind : Kind) : kind.modulus ≤ clusterLimit kind := by
  cases kind <;> decide

section Retargeted

variable {entry : List UInt8} (whole : entry.length = entrySize) (first size : Nat) (kind : Kind)

include whole

theorem length_putCluster : (putCluster entry first kind).length = entrySize := by
  have inner : (patch entry 26 (le16 first)).length = entrySize := by
    rw [length_patch (by rw [whole, length_le16]; decide), whole]
  rw [putCluster, length_patch (by rw [inner, length_le16]; decide), inner]

theorem length_retargeted : (retargeted entry first size kind).length = entrySize := by
  have inner := length_putCluster whole first kind
  rw [retargeted, length_patch (by rw [inner, length_le32]; decide), inner]

theorem getElem?_putCluster (away : index < 20 ∨ 22 ≤ index ∧ index < 26 ∨ 28 ≤ index) :
    (putCluster entry first kind)[index]? = entry[index]? := by
  have inner : (patch entry 26 (le16 first)).length = entrySize := by
    rw [length_patch (by rw [whole, length_le16]; decide), whole]
  rw [putCluster, getElem?_patch (by rw [inner, length_le16]; decide), length_le16,
    getElem?_patch (by rw [whole, length_le16]; decide), length_le16]
  by_cases low : index < 20
  · rw [if_pos low, if_pos (by omega)]
  · rw [if_neg low, if_neg (by omega)]
    by_cases middle : index < 26
    · rw [if_pos middle]
    · rw [if_neg middle, if_neg (by omega)]

theorem getElem?_retargeted (away : index < 20) :
    (retargeted entry first size kind)[index]? = entry[index]? := by
  have inner := length_putCluster whole first kind
  rw [retargeted, getElem?_patch_of_lt (by rw [inner, length_le32]; decide) (by omega),
    getElem?_putCluster whole first kind (Or.inl away)]

theorem sameName_retargeted : SameName entry (retargeted entry first size kind) := by
  have same : ∀ index < 20,
      field (retargeted entry first size kind) index = field entry index := fun index small => by
    rw [field, field, getElem?_retargeted whole first size kind small]
  refine ⟨ext_getElem? fun index => ?_, same 11 (by decide), same 12 (by decide),
    same 0 (by decide)⟩
  rw [getElem?_take, getElem?_take]
  by_cases small : index < 11
  · rw [if_pos small, if_pos small, getElem?_retargeted whole first size kind (by omega)]
  · rw [if_neg small, if_neg small]

theorem u32le_retargeted (small : size < 4294967296) :
    u32le (retargeted entry first size kind) 28 = size := by
  have inner := length_putCluster whole first kind
  rw [retargeted, u32le_patch_le32 (by rw [inner]; decide), Nat.mod_eq_of_lt small]

theorem u16le_putCluster :
    u16le (putCluster entry first kind) 26 = first % 65536 ∧
      u16le (putCluster entry first kind) 20 =
        (if kind = .fat32 then first / 65536 else 0) % 65536 := by
  have inner : (patch entry 26 (le16 first)).length = entrySize := by
    rw [length_patch (by rw [whole, length_le16]; decide), whole]
  refine ⟨?_, u16le_patch_le16 (by rw [inner]; decide) _⟩
  rw [← u16le_patch_le16 (by rw [whole]; decide : 26 + 2 ≤ entry.length) first]
  exact u16le_congr fun offset small =>
    getElem?_patch_of_ge (by rw [inner, length_le16]; decide) (by rw [length_le16]; omega)

theorem entryCluster_retargeted_of_lt (small : first < clusterLimit kind) :
    entryCluster kind (retargeted entry first size kind) = first := by
  have inner := length_putCluster whole first kind
  obtain ⟨low, high⟩ := u16le_putCluster whole first kind
  have same : ∀ start, start + 2 ≤ 28 →
      u16le (retargeted entry first size kind) start = u16le (putCluster entry first kind) start :=
    fun start below => u16le_congr fun offset small =>
      getElem?_patch_of_lt (by rw [inner, length_le32]; decide) (by omega)
  rw [entryCluster, same 26 (by omega), same 20 (by omega), low, high]
  unfold clusterLimit at small
  by_cases large : kind = .fat32
  · rw [if_pos large] at small
    rw [if_pos large, if_pos large]
    omega
  · rw [if_neg large] at small
    rw [if_neg large]
    omega

theorem entryCluster_retargeted (small : first < kind.modulus) :
    entryCluster kind (retargeted entry first size kind) = first :=
  entryCluster_retargeted_of_lt whole first size kind
    (Nat.lt_of_lt_of_le small (modulus_le_clusterLimit kind))

end Retargeted

/-! ### The entries of a new record -/

theorem length_longEntry (units : List Nat) (count ordinal : Nat) (sum : UInt8) :
    (longEntry units count ordinal sum).length = entrySize := by
  simp [longEntry, entrySize]

theorem mark_longEntry [CaseMapping] (units : List Nat) (count : Nat) {ordinal : Nat} (sum : UInt8)
    (positive : 0 < ordinal) (small : ordinal ≤ 20) :
    mark (longEntry units count ordinal sum) = .long := by
  have first : field (longEntry units count ordinal sum) 0 =
      (UInt8.ofNat ordinal ||| if ordinal = count then 0x40 else 0) := by
    simp [field, longEntry]
  have attr : field (longEntry units count ordinal sum) 11 = 0x0f := by
    simp [field, longEntry, le16]
  have bounds : ∀ number < 21, 0 < number → ∀ flag ∈ [(0x40 : UInt8), 0],
      UInt8.ofNat number ||| flag ≠ 0 ∧ UInt8.ofNat number ||| flag ≠ 0xe5 := by decide +kernel
  have flagged : (if ordinal = count then (0x40 : UInt8) else 0) ∈ [(0x40 : UInt8), 0] := by
    split <;> simp
  obtain ⟨notZero, notDeleted⟩ := bounds ordinal (by omega) positive _ flagged
  rw [mark, first, attr, if_neg notZero, if_neg notDeleted, if_pos rfl]

/-- A short entry before its first cluster and size are put in. -/
def blankEntry (short : List UInt8) (attr : UInt8) : List UInt8 :=
  short ++ [attr, 0, 0, 0, 0, 0x21, 0, 0x21, 0, 0, 0, 0, 0, 0x21, 0, 0, 0, 0, 0, 0, 0]

theorem shortEntry_eq (short : List UInt8) (first size : Nat) (attr : UInt8) (kind : Kind) :
    shortEntry short first size attr kind =
      retargeted (blankEntry short attr) first size kind := rfl

section Short

variable (length : short.length = 11) (first size : Nat) (attr : UInt8) (kind : Kind)

include length

theorem length_blankEntry : (blankEntry short attr).length = entrySize := by
  rw [blankEntry, length_append, length]
  rfl

theorem length_shortEntry : (shortEntry short first size attr kind).length = entrySize :=
  length_retargeted (length_blankEntry length attr) first size kind

theorem field_blankEntry : field (blankEntry short attr) 11 = attr ∧
    field (blankEntry short attr) 12 = 0 := by
  unfold field blankEntry
  rw [getElem?_append_right (by omega), getElem?_append_right (by omega), length]
  exact ⟨rfl, rfl⟩

theorem take_shortEntry : (shortEntry short first size attr kind).take 11 = short := by
  rw [shortEntry_eq, (sameName_retargeted (length_blankEntry length attr) first size kind).name,
    blankEntry, take_append_of_le_length (by omega), take_of_length_le (by omega)]

theorem field_shortEntry : field (shortEntry short first size attr kind) 11 = attr ∧
    field (shortEntry short first size attr kind) 12 = 0 := by
  have same := sameName_retargeted (length_blankEntry length attr) first size kind
  rw [shortEntry_eq, same.attr, same.case]
  exact field_blankEntry length attr

end Short

theorem length_encodeUtf16_of_valid (valid : validName name = true) :
    (encodeUtf16 name).length ≤ 255 := by
  simp only [validName, Bool.not_eq_true', Bool.or_eq_false_iff, decide_eq_false_iff_not] at valid
  omega

theorem longCount_le [CaseMapping] (valid : validName name = true) (short : List UInt8) :
    longCount name short ≤ 20 := by
  have bound := length_encodeUtf16_of_valid valid
  rw [longCount]
  split <;> omega

/-- The entries of a new record: its long-name entries in descending order, then the short one. -/
theorem entries_entrySet [CaseMapping] (name : List Char) (length : short.length = 11)
    (first size : Nat) (attr : UInt8) (kind : Kind) :
    entries (entrySet name short first size attr kind) =
      ((List.range (longCount name short)).map fun index =>
        longEntry (encodeUtf16 name) (longCount name short) (longCount name short - index)
          (checksum short)) ++ [shortEntry short first size attr kind] := by
  have longs : ((List.range (longCount name short)).flatMap fun index =>
      longEntry (encodeUtf16 name) (longCount name short) (longCount name short - index)
        (checksum short)).length = longCount name short * entrySize := by
    rw [List.length_flatMap]
    simp [length_longEntry]
  rw [entrySet, entries_append ⟨_, longs.trans (Nat.mul_comm ..)⟩,
    entries_flatMap (fun _ _ => length_longEntry ..),
    entries_singleton (length_shortEntry length ..)]

theorem length_entrySet [CaseMapping] (name : List Char) (length : short.length = 11)
    (first size : Nat) (attr : UInt8) (kind : Kind) :
    (entrySet name short first size attr kind).length = (longCount name short + 1) * entrySize := by
  rw [entrySet, length_append, length_shortEntry length, List.length_flatMap]
  simp [length_longEntry, Nat.succ_mul]

/-- The entries under a chosen short name, in bytes and in slots. -/
theorem entrySet_chosen [CaseMapping] (chosen : shortName name taken = .ok short)
    (first size : Nat) (attr : UInt8) (kind : Kind) :
    (entrySet name short first size attr kind).length = (longCount name short + 1) * entrySize ∧
      (entrySet name short first size attr kind).length / entrySize = longCount name short + 1 := by
  obtain ⟨_, _, _, padded⟩ := shortName_spec chosen
  have whole := length_entrySet name padded.length first size attr kind
  refine ⟨whole, ?_⟩
  rw [whole, Nat.mul_div_cancel _ (by decide)]

end Mmurtl.Fat

/-
This file models the names of the FAT driver: path components, comparison without
regard to case, the DOS code page, 8.3 aliases and the choice of an unused one.

Strings are lists of characters. The case mappings of Unicode are parameters; all that
is fixed about them is what they do to ASCII.
-/

import Mmurtl.Fat.Volume
import Mmurtl.Library.Utf16

namespace Mmurtl.Fat

/-- The upper and lower case mappings of characters. -/
class CaseMapping where
  upper : Char → List Char
  lower : Char → List Char
  upper_ascii : ∀ c : Char, c.toNat < 128 → upper c = [c.toUpper]
  lower_ascii : ∀ c : Char, c.toNat < 128 → lower c = [c.toLower]

/-- The case mappings of ASCII. -/
@[reducible] def asciiMapping : CaseMapping where
  upper c := [c.toUpper]
  lower c := [c.toLower]
  upper_ascii _ _ := rfl
  lower_ascii _ _ := rfl

/-! ### Comparison and paths -/

/-- Whether two names are equal up to case. -/
def same [CaseMapping] (first second : List Char) : Bool :=
  first.flatMap CaseMapping.upper == second.flatMap CaseMapping.upper

/-- The components of a path, with `.` left out and `..` resolved. -/
def components (path : List Char) : List (List Char) :=
  (path.splitOnP fun c => c == '/' || c == '\\').foldl (fun parts part =>
    if part = [] ∨ part = ['.'] then parts
    else if part = ['.', '.'] then parts.dropLast
    else parts ++ [part]) []

/-! ### Short names as text -/

/-- The checksum of a short name that its long-name entries carry. -/
def checksum (short : List UInt8) : UInt8 :=
  short.foldl (fun sum byte => (sum >>> 1 ||| sum <<< 7) + byte) 0

/-- The upper half of the default DOS code page, as code points. -/
def cp437 : List Nat :=
  [0xc7, 0xfc, 0xe9, 0xe2, 0xe4, 0xe0, 0xe5, 0xe7, 0xea, 0xeb, 0xe8, 0xef, 0xee, 0xec, 0xc4, 0xc5,
   0xc9, 0xe6, 0xc6, 0xf4, 0xf6, 0xf2, 0xfb, 0xf9, 0xff, 0xd6, 0xdc, 0xa2, 0xa3, 0xa5, 0x20a7,
   0x192,
   0xe1, 0xed, 0xf3, 0xfa, 0xf1, 0xd1, 0xaa, 0xba, 0xbf, 0x2310, 0xac, 0xbd, 0xbc, 0xa1, 0xab, 0xbb,
   0x2591, 0x2592, 0x2593, 0x2502, 0x2524, 0x2561, 0x2562, 0x2556, 0x2555, 0x2563, 0x2551, 0x2557,
   0x255d, 0x255c, 0x255b, 0x2510, 0x2514, 0x2534, 0x252c, 0x251c, 0x2500, 0x253c, 0x255e, 0x255f,
   0x255a, 0x2554, 0x2569, 0x2566, 0x2560, 0x2550, 0x256c, 0x2567, 0x2568, 0x2564, 0x2565, 0x2559,
   0x2558, 0x2552, 0x2553, 0x256b, 0x256a, 0x2518, 0x250c, 0x2588, 0x2584, 0x258c, 0x2590, 0x2580,
   0x3b1, 0xdf, 0x393, 0x3c0, 0x3a3, 0x3c3, 0xb5, 0x3c4, 0x3a6, 0x398, 0x3a9, 0x3b4, 0x221e, 0x3c6,
   0x3b5, 0x2229, 0x2261, 0xb1, 0x2265, 0x2264, 0x2320, 0x2321, 0xf7, 0x2248, 0xb0, 0x2219, 0xb7,
   0x221a, 0x207f, 0xb2, 0x25a0, 0xa0]

/-- The character of a byte of a short name. -/
def oemChar (byte : UInt8) : Char :=
  if byte < 128 then Char.ofNat byte.toNat
  else Char.ofNat (cp437.getD (byte.toNat - 128) 0)

/-- A part of a short name without its trailing spaces. -/
def trimmed (part : List UInt8) : List UInt8 := (part.reverse.dropWhile (· == 0x20)).reverse

/-- The characters of a part of a short name, in lower case if so marked. -/
def aliasPart [CaseMapping] (part : List UInt8) (lower : Bool) : List Char :=
  part.flatMap fun byte =>
    if lower then CaseMapping.lower (oemChar byte) else [oemChar byte]

/-- The first byte of a name is stored as 5 where it is 0xe5. -/
def unescaped : List UInt8 → List UInt8
  | first :: rest => (if first = 5 then 0xe5 else first) :: rest
  | [] => []

/-- A short name as text, with the case bits of its entry. -/
def aliasName [CaseMapping] (short : List UInt8) (case : UInt8) : List Char :=
  let base := trimmed (short.take 8)
  let extension := trimmed (short.drop 8)
  aliasPart (unescaped base) (case &&& 8 != 0) ++
    if extension = [] then [] else '.' :: aliasPart extension (case &&& 16 != 0)

/-! ### Long names -/

/-- The code points of `"*/:<>?\|`, which no name may contain. -/
def forbidden : List Nat := [0x22, 0x2a, 0x2f, 0x3a, 0x3c, 0x3e, 0x3f, 0x5c, 0x7c]

/-- Whether a name may be stored. -/
def validName (name : List Char) : Bool :=
  !(name.isEmpty || name == ['.'] || name == ['.', '.'] ||
    name.getLast? == some ' ' || name.getLast? == some '.' ||
    decide (255 < (encodeUtf16 name).length) ||
    name.any fun c => decide (c.toNat < 0x20) || forbidden.contains c.toNat)

def validateName (name : List Char) : Outcome FatError Unit :=
  if validName name then .ok () else .error .invalidName

/-! ### The choice of a short name -/

/-- The code points of the punctuation a short name may contain. -/
def shortPunctuation : List Nat :=
  [0x24, 0x25, 0x27, 0x2d, 0x5f, 0x40, 0x7e, 0x60, 0x21, 0x28, 0x29, 0x7b, 0x7d, 0x5e, 0x23, 0x26]

/-- The byte of a character in a short name; an underscore where there is none. -/
def shortChar (c : Char) : UInt8 :=
  if c.isAlphanum || shortPunctuation.contains c.toNat then UInt8.ofNat c.toUpper.toNat else 0x5f

/-- A name split at its last dot, unless nothing stands before that dot. -/
def splitExtension (name : List Char) : List Char × List Char :=
  let extension := (name.reverse.takeWhile (· != '.')).reverse
  let base := name.take (name.length - extension.length - 1)
  if extension.length = name.length ∨ base = [] then (name, []) else (base, extension)

/-- The length of a string in bytes. -/
def utf8Length (name : List Char) : Nat := (name.map fun c => c.utf8Size).sum

/-- A part of a short name filled up with spaces. -/
def padded (size : Nat) (part : List UInt8) : List UInt8 :=
  part ++ List.replicate (size - part.length) 0x20

/-- Whether a name is an 8.3 name up to case. -/
def simpleName (base extension : List Char) : Bool :=
  !base.isEmpty && decide (utf8Length base ≤ 8) && decide (utf8Length extension ≤ 3) &&
    (base ++ extension).all fun c =>
      decide (c.toNat < 128) && shortChar c == UInt8.ofNat c.toUpper.toNat

/-- The short name of an 8.3 name. -/
def directName (base extension : List Char) : List UInt8 :=
  padded 8 (base.map shortChar) ++ padded 3 (extension.map shortChar)

/-- The decimal digits of a number with at most `size` digits. -/
def digits : Nat → Nat → List UInt8
  | 0, _ => []
  | size + 1, number =>
    if number = 0 then [] else digits size (number / 10) ++ [UInt8.ofNat (0x30 + number % 10)]

/-- The short name with a numeric tail. -/
def numberedName (base extension : List Char) (number : Nat) : List UInt8 :=
  let clean := (base.filter fun c => c != ' ' && c != '.').map shortChar
  let tail := digits 6 number
  let kept := min (7 - tail.length) clean.length
  padded 8 (clean.take kept ++ 0x7e :: tail) ++ padded 3 ((extension.take 3).map shortChar)

/-- The first number from `number` on whose short name is not taken. -/
def searchName (base extension : List Char) (taken : List (List UInt8)) :
    Nat → Nat → Outcome FatError (List UInt8)
  | 0, _ => .error .aliasesExhausted
  | steps + 1, number =>
    if taken.contains (numberedName base extension number) then
      searchName base extension taken steps (number + 1)
    else .ok (numberedName base extension number)

/-- An unused short name for a name. -/
def shortName (name : List Char) (taken : List (List UInt8)) : Outcome FatError (List UInt8) :=
  let (base, extension) := splitExtension name
  if simpleName base extension && !taken.contains (directName base extension) then
    .ok (directName base extension)
  else searchName base extension taken 999999 1

end Mmurtl.Fat

/-
This file models the validation of executables: the headers, the segments, the dynamic table
and the relocations of an untrusted file. Reads outside the file and sums that overflow are
panics; the errors carry the texts of the source.
-/

import Mmurtl.Library.Bytes
import Mmurtl.User.Layout

namespace Mmurtl.User

open Bytes

/-! ### Files -/

/-- A file in memory. Its length is within the limit of the language. -/
abbrev File := { bytes : List UInt8 // bytes.length < 2 ^ 63 }

def rd16 (file : File) (at_ : Nat) : Outcome String Nat :=
  if at_ + 2 ≤ file.val.length then .ok (u16le file.val at_) else .panic

def rd32 (file : File) (at_ : Nat) : Outcome String Nat :=
  if at_ + 4 ≤ file.val.length then .ok (u32le file.val at_) else .panic

def rd64 (file : File) (at_ : Nat) : Outcome String Nat :=
  if at_ + 8 ≤ file.val.length then .ok (u64le file.val at_) else .panic

/-- A byte of a file. -/
def rd8 (file : File) (at_ : Nat) : Outcome String Nat :=
  if at_ < file.val.length then .ok (byteAt file.val at_) else .panic

/-- A sum of machine words, which must not overflow. -/
def plus (first second : Nat) : Outcome String Nat :=
  if first + second < 2 ^ 64 then .ok (first + second) else .panic

/-- A sum of machine words, or an error. -/
def checkedPlus (first second : Nat) (reason : String) : Outcome String Nat :=
  if first + second < 2 ^ 64 then .ok (first + second) else .error reason

/-! ### Images -/

def maxImage : Nat := 64 * 2 ^ 20

def maxRelocs : Nat := 4096

structure Segment where
  vaddr : Nat
  memsz : Nat
  offset : Nat
  filesz : Nat
  writable : Bool
  executable : Bool
  deriving DecidableEq

structure Region where
  start : Nat
  stop : Nat
  deriving DecidableEq

structure Image where
  entry : Nat
  pie : Bool
  alignment : Nat
  segments : List Segment
  relro : Option Region
  relocFile : Nat
  relocCount : Nat
  deriving DecidableEq

/-- The end of a segment. -/
def Segment.stop (segment : Segment) : Outcome String Nat := plus segment.vaddr segment.memsz

/-- Where in the file a range of addresses is. -/
def fileRange : List Segment → Nat → Nat → Outcome String (Option Nat)
  | [], _, _ => .ok none
  | segment :: rest, va, len =>
      if segment.vaddr ≤ va ∧ va - segment.vaddr ≤ segment.filesz ∧
          len ≤ segment.filesz - (va - segment.vaddr) then do
        let place ← plus segment.offset (va - segment.vaddr)
        pure (some place)
      else fileRange rest va len

/-! ### Program headers -/

/-- A program header, as it is read. -/
structure Header where
  kind : Nat
  flags : Nat
  offset : Nat
  va : Nat
  filesz : Nat
  memsz : Nat

def readHeader (file : File) (at_ : Nat) : Outcome String Header := do
  let kind ← rd32 file at_
  let flags ← rd32 file (at_ + 4)
  let offset ← rd64 file (at_ + 8)
  let va ← rd64 file (at_ + 16)
  let filesz ← rd64 file (at_ + 32)
  let memsz ← rd64 file (at_ + 40)
  pure ⟨kind, flags, offset, va, filesz, memsz⟩

/-- What is known after some program headers: the image, where the dynamic table is (address,
length and place in the file), and the memory the segments take. -/
structure Headers where
  image : Image
  dynamic : Option (Nat × Nat × Nat)
  total : Nat

/-- A header of the dynamic table. -/
def dynamicHeader (header : Header) (headers : Headers) : Outcome String Headers :=
  if header.kind = 2 then do
    Outcome.check (headers.dynamic = none ∧ headers.image.pie = true ∧ header.filesz ≠ 0 ∧
      header.filesz ≤ header.memsz ∧ header.filesz % 16 = 0 ∧ header.filesz ≤ 4096)
      "bad dynamic table"
    pure { headers with dynamic := some (header.va, header.filesz, header.offset) }
  else pure headers

/-- A header of the part that is read-only after relocation. -/
def relroHeader (header : Header) (stop : Nat) (headers : Headers) : Outcome String Headers :=
  if header.kind = 0x6474e552 ∧ header.memsz ≠ 0 then do
    Outcome.check (headers.image.relro = none ∧ header.va % pageSize = 0 ∧ stop % pageSize = 0)
      "RELRO must cover whole pages"
    pure { headers with image := { headers.image with relro := some ⟨header.va, stop⟩ } }
  else pure headers

/-- Whether a segment takes a page of some pages in a row. -/
def Segment.overlaps (segment : Segment) (first last : Nat) : Outcome String Bool := do
  let stop ← segment.stop
  let rounded ← plus stop (pageSize - 1)
  pure (decide (first < roundDown rounded ∧ roundDown segment.vaddr < last))

/-- A header of a segment that is loaded. -/
def loadHeader (file : File) (userBase userLimit at_ : Nat) (header : Header) (stop : Nat)
    (headers : Headers) : Outcome String Headers := do
  let align ← rd64 file (at_ + 48)
  Outcome.check (align ≤ 1 ∨ (isPowerOfTwo align ∧ header.va % align = header.offset % align))
    "invalid segment alignment"
  Outcome.check (headers.image.pie = false ∨ align ≤ 65536) "PIE alignment exceeds 64 KiB limit"
  Outcome.check (header.flags / 8 = 0 ∧ header.flags &&& 4 ≠ 0) "unsupported segment permissions"
  Outcome.check (header.filesz ≤ header.memsz ∧ header.offset + header.filesz < 2 ^ 64 ∧
    header.offset + header.filesz ≤ file.val.length) "segment data past end of file"
  Outcome.check (header.flags &&& 3 ≠ 3) "writable+executable segment (W^X)"
  Outcome.check (headers.image.pie = false ∨ stop ≤ maxImage) "PIE image exceeds size limit"
  Outcome.check (headers.image.pie = true ∨ (userBase ≤ header.va ∧ stop ≤ userLimit))
    "segment outside the user window"
  let total ← checkedPlus headers.total header.memsz "image too large"
  Outcome.check (total ≤ maxImage) "image exceeds memory limit"
  let rounded ← checkedPlus stop (pageSize - 1) "segment wraps"
  let shared ← Outcome.any headers.image.segments fun segment =>
    segment.overlaps (roundDown header.va) (roundDown rounded)
  Outcome.check (shared = false) "segments share a page"
  Outcome.check (headers.image.segments.length < 16) "too many segments"
  pure { headers with
    total := total
    image := { headers.image with
      alignment := max headers.image.alignment align
      segments := headers.image.segments ++ [{
        vaddr := header.va
        memsz := header.memsz
        offset := header.offset
        filesz := header.filesz
        writable := header.flags &&& 2 ≠ 0
        executable := header.flags &&& 1 ≠ 0 }] } }

/-- One program header. -/
def programHeader (file : File) (userBase userLimit : Nat) (headers : Headers) (at_ : Nat) :
    Outcome String Headers := do
  let header ← readHeader file at_
  let stop ← checkedPlus header.va header.memsz "segment wraps"
  Outcome.check (header.kind ≠ 3) "dynamic interpreter unsupported"
  Outcome.check (¬(header.kind = 0x6474e551 ∧ header.flags &&& 1 ≠ 0))
    "executable stack unsupported"
  let headers ← dynamicHeader header headers
  let headers ← relroHeader header stop headers
  if header.kind ≠ 1 ∨ header.memsz = 0 then pure headers
  else loadHeader file userBase userLimit at_ header stop headers

/-! ### The dynamic table -/

/-- What the dynamic table says about the relocations. -/
structure Tags where
  rela : Option Nat
  relasz : Option Nat
  relaent : Option Nat
  deriving DecidableEq

/-- The entries of the dynamic table, up to its end. -/
def dynamicTable (file : File) : List Nat → Tags → Outcome String Tags
  | [], _ => .error "unterminated dynamic table"
  | at_ :: rest, tags => do
      let tag ← rd64 file at_
      let value ← rd64 file (at_ + 8)
      if tag = 0 then pure tags
      else if tag = 7 then
        if tags.rela.isSome then .error "duplicate DT_RELA"
        else dynamicTable file rest { tags with rela := some value }
      else if tag = 8 then
        if tags.relasz.isSome then .error "duplicate DT_RELASZ"
        else dynamicTable file rest { tags with relasz := some value }
      else if tag = 9 then
        if tags.relaent.isSome then .error "duplicate DT_RELAENT"
        else dynamicTable file rest { tags with relaent := some value }
      else if tag ∈ [1, 2, 17, 18, 19, 20, 22, 23, 35, 36, 37] then
        .error "unsupported dynamic dependency/relocation format"
      else dynamicTable file rest tags

/-- Whether eight bytes at an address are in a writable segment. -/
def Segment.takesTarget (segment : Segment) (target : Nat) : Outcome String Bool :=
  if segment.writable = true ∧ segment.vaddr ≤ target ∧ target + 8 < 2 ^ 64 then do
    let stop ← segment.stop
    pure (decide (target + 8 ≤ stop))
  else pure false

/-- Check one relocation. -/
def checkRelocation (file : File) (segments : List Segment) (relative at_ : Nat) :
    Outcome String Unit := do
  let target ← rd64 file at_
  let info ← rd64 file (at_ + 8)
  Outcome.check (info = relative) "only symbol-free RELATIVE relocations supported"
  Outcome.check (target % 8 = 0) "relocation target outside writable image"
  let inside ← Outcome.any segments fun segment => segment.takesTarget target
  Outcome.check (inside = true) "relocation target outside writable image"
  let addend ← rd64 file (at_ + 16)
  Outcome.check (addend < 2 ^ 63 ∧ addend ≤ maxImage) "relative addend outside image bounds"

/-- The kind of relocation of a machine. -/
def relativeKind (machine : Nat) : Outcome String Nat :=
  if machine = 62 then .ok 8
  else if machine = 183 then .ok 1027
  else .error "unsupported relocation architecture"

/-- Check the relocations that the dynamic table describes. -/
def checkRelocations (file : File) (machine : Nat) (image : Image) (tags : Tags) :
    Outcome String Image :=
  match tags with
  | ⟨none, none, none⟩ => .ok image
  | ⟨some va, some len, some 24⟩ =>
      if len % 24 = 0 ∧ len / 24 ≤ maxRelocs then do
        let found ← fileRange image.segments va len
        match found with
        | none => .error "relocations outside file-backed image"
        | some place => do
            let relative ← relativeKind machine
            (List.range (len / 24)).foldlM
              (fun _ i => checkRelocation file image.segments relative (place + i * 24)) ()
            pure { image with relocFile := place, relocCount := len / 24 }
      else .error "invalid RELA table description"
  | _ => .error "invalid RELA table description"

/-- The dynamic table, if there is one. -/
def dynamicImage (file : File) (machine : Nat) (headers : Headers) : Outcome String Image :=
  match headers.dynamic with
  | none => .ok headers.image
  | some (va, len, offset) => do
      let found ← fileRange headers.image.segments va len
      match found with
      | none => .error "dynamic table outside file-backed image"
      | some place => do
          Outcome.check (place = offset) "inconsistent dynamic table offset"
          let _ ← plus place len
          let tags ← dynamicTable file
            ((List.range ((len + 15) / 16)).map fun i => place + 16 * i) ⟨none, none, none⟩
          checkRelocations file machine headers.image tags

/-! ### The whole file -/

/-- Whether a segment holds the entry point. -/
def Segment.holdsEntry (segment : Segment) (entry : Nat) : Outcome String Bool :=
  if segment.executable = true ∧ segment.vaddr ≤ entry then do
    let stop ← segment.stop
    pure (decide (entry < stop))
  else pure false

/-- Whether a writable segment holds a region. -/
def Segment.holdsRegion (segment : Segment) (region : Region) : Outcome String Bool :=
  if segment.writable = true ∧ segment.vaddr ≤ region.start then do
    let stop ← segment.stop
    pure (decide (region.stop ≤ stop))
  else pure false

def checkRelro (image : Image) : Outcome String Unit :=
  match image.relro with
  | none => .ok ()
  | some region => do
      let inside ← Outcome.any image.segments fun segment => segment.holdsRegion region
      Outcome.check (inside = true) "RELRO outside writable image"

/-- The kind of executable: linked to an address, or independent of it. -/
def executableKind (kind : Nat) : Outcome String Bool :=
  if kind = 2 then .ok false
  else if kind = 3 then .ok true
  else .error "not an executable or static PIE"

/-- The file header: whether the image is position-independent, and where the program headers
are, their size and their number. -/
def fileHeader (file : File) (machine : Nat) : Outcome String (Bool × Nat × Nat × Nat) := do
  Outcome.check (64 ≤ file.val.length ∧ file.val.take 4 = [0x7f, 0x45, 0x4c, 0x46])
    "not an ELF file"
  let wide ← rd8 file 4
  let order ← rd8 file 5
  let version ← rd8 file 6
  let fileVersion ← rd32 file 20
  Outcome.check (wide = 2 ∧ order = 1 ∧ version = 1 ∧ fileVersion = 1)
    "unsupported ELF format/version"
  let kind ← rd16 file 16
  let pie ← executableKind kind
  let built ← rd16 file 18
  Outcome.check (built = machine) "built for a different architecture"
  let headerSize ← rd16 file 52
  Outcome.check (headerSize = 64) "bad ELF header size"
  let phoff ← rd64 file 32
  let size ← rd16 file 54
  let count ← rd16 file 56
  Outcome.check (56 ≤ size ∧ count ≠ 0 ∧ count ≤ 32 ∧ phoff + size * count < 2 ^ 64 ∧
    phoff + size * count ≤ file.val.length) "bad program header table"
  pure (pie, phoff, size, count)

/-- Validate a file. -/
def parse (file : File) (machine userBase userLimit : Nat) : Outcome String Image := do
  let (pie, phoff, size, count) ← fileHeader file machine
  let entry ← rd64 file 24
  let headers ← ((List.range count).map fun i => phoff + i * size).foldlM
    (programHeader file userBase userLimit)
    ⟨⟨entry, pie, pageSize, [], none, 0, 0⟩, none, 0⟩
  let entered ← Outcome.any headers.image.segments fun segment =>
    segment.holdsEntry headers.image.entry
  Outcome.check (entered = true) "entry point not in an executable segment"
  checkRelro headers.image
  dynamicImage file machine headers

/-! ### What is loaded -/

/-- The pages of a segment. -/
def Segment.pages (segment : Segment) : List Nat :=
  let first := roundDown segment.vaddr
  let last := roundDown (segment.vaddr + segment.memsz + pageSize - 1)
  (List.range ((last - first + pageSize - 1) / pageSize)).map fun i => first + i * pageSize

/-- What is copied to a page of a segment: where in the page, and the bytes. -/
def Segment.pageData (segment : Segment) (file : File) (page : Nat) :
    Outcome String (Nat × List UInt8) :=
  let low := max page segment.vaddr
  let high := min (page + pageSize) (segment.vaddr + segment.filesz)
  if low < high then
    let start := segment.offset + low - segment.vaddr
    if start + (high - low) ≤ file.val.length then
      .ok (low - page, slice file.val start (high - low))
    else .panic
  else .ok (low - page, [])

/-- Where an image is loaded. -/
def Image.bias (image : Image) (layout : Layout) : Outcome String Nat :=
  if image.pie then layout.imageBias image.alignment else .ok 0

/-- The relocations of an image: their targets and addends, as they are read. -/
def Image.relocations (image : Image) (file : File) : List (Outcome String (Nat × Nat)) :=
  (List.range image.relocCount).map fun i => do
    let target ← rd64 file (image.relocFile + i * 24)
    let addend ← rd64 file (image.relocFile + i * 24 + 16)
    pure (target, addend)

/-- Whether a page is read-only after relocation. -/
def Image.readonlyPage (image : Image) (page : Nat) : Bool :=
  image.relro.any fun region => region.start ≤ page ∧ page + pageSize ≤ region.stop

end Mmurtl.User

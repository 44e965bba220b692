import AssemblyGate.Bytes
import AssemblyGate.Text.Utf8

/-!
# Images

An image is an executable file: a stub header, file headers, a table of sections
and a directory that locates the runtime header.  Addresses in the metadata are
relative to where the loader would place the sections, so they are mapped to
offsets in the file through the section table.
-/

namespace AssemblyGate

structure Section where
  address : Nat
  size : Nat
  rawOffset : Nat
  rawSize : Nat
  deriving DecidableEq, Repr

structure Image where
  data : Bytes
  sections : List Section
  runtimeDirectory : Nat × Nat
  deriving Repr

namespace Image

/--
The offset of an address: the first section that spans it decides.  A section that
would end past 32 bits makes every address behind it in the table unmappable.
-/
def offsetIn (address : Nat) : List Section → Except Error Nat
  | [] => .error (.malformed (.unmappedAddress address))
  | s :: sections =>
      if s.address + s.size ≥ wordLimit then
        .error (.malformed (.sectionOverflow s.address s.size))
      else if s.address ≤ address ∧ address < s.address + s.size then
        .ok (address - s.address + s.rawOffset)
      else
        offsetIn address sections

def offsetOf (image : Image) (address : Nat) : Except Error Nat :=
  offsetIn address image.sections

end Image

/-! ## File headers -/

structure ImageHeaders where
  sections : List Section
  optional : Option (Nat × Option (Nat × Nat))
  deriving DecidableEq, Repr

namespace ImageHeaders

private def field? (data : Bytes) (offset width : Nat) : Option Nat :=
  (data.number offset width).toOption

def base64Digit? (c : Char) : Option Nat :=
  if 'A' ≤ c ∧ c ≤ 'Z' then some (c.toNat - 'A'.toNat)
  else if 'a' ≤ c ∧ c ≤ 'z' then some (c.toNat - 'a'.toNat + 26)
  else if '0' ≤ c ∧ c ≤ '9' then some (c.toNat - '0'.toNat + 52)
  else if c = '+' then some 62
  else if c = '/' then some 63
  else none

def decimal? (text : List Char) : Option Nat :=
  let digits := match text with
    | '+' :: rest => rest
    | rest => rest
  if digits.isEmpty ∨ !digits.all Char.isDigit then none
  else some (digits.foldl (fun value digit => value * 10 + (digit.toNat - '0'.toNat)) 0)

def nameOffset? : List Char → Option Nat
  | '/' :: digits =>
      digits.foldlM (fun value digit => (base64Digit? digit).map (value * 64 + ·)) 0
  | digits => decimal? digits

/--
Whether the name of a section is well formed.  A slash in front says that the name is
stored elsewhere, and then its place has to follow, up to a zero byte.
-/
def nameIsWellFormed (name : Bytes) : Bool :=
  match name.toList.takeWhile (· != 0) with
  | 0x2f :: place => ((Text.decode? place).bind fun text => nameOffset? text.toList).isSome
  | _ => true

def sectionSize : Nat := 40

def readSections (data : Bytes) : (remaining offset : Nat) → Option (List Section)
  | 0, _ => some []
  | remaining + 1, offset => do
      let entry ← (data.slice offset sectionSize).toOption
      let s : Section := {
        size := ← field? entry 8 4
        address := ← field? entry 12 4
        rawSize := ← field? entry 16 4
        rawOffset := ← field? entry 20 4 }
      if nameIsWellFormed (entry.extract 0 8) then
        let others ← readSections data remaining (offset + sectionSize)
        some (s :: others)
      else none

def runtimeDirectoryNumber : Nat := 14

def maxDirectories : Nat := 16

def optionalSize? (magic : Nat) : Option Nat :=
  if magic = 0x10b then some 96
  else if magic = 0x20b then some 112
  else none

def readOptional (data : Bytes) (offset : Nat) : Option (Nat × Option (Nat × Nat)) := do
  let size ← optionalSize? (← field? data offset 2)
  let header ← (data.slice offset size).toOption
  let alignment ← field? header 36 4
  let count ← field? header (size - 4) 4
  if count > maxDirectories then
    none
  else
    let directories ← (data.slice (offset + size) (count * 8)).toOption
    if count ≤ runtimeDirectoryNumber then
      some (alignment, none)
    else
      let address ← field? directories (runtimeDirectoryNumber * 8) 4
      let length ← field? directories (runtimeDirectoryNumber * 8 + 4) 4
      some (alignment, if address = 0 ∧ length = 0 then none else some (address, length))

def alignUp (value alignment : Nat) : Nat := (value + alignment - 1) / alignment * alignment

def sectorSize : Nat := 0x200

def pageSize : Nat := 0x1000

/-- How much of a section a loader maps: from a whole sector on, and no more than its pages. -/
def mappedSize (alignment : Nat) (s : Section) : Nat :=
  let mapped := min
    (alignUp (s.rawOffset + s.rawSize) alignment - s.rawOffset / sectorSize * sectorSize)
    (alignUp s.rawSize pageSize)
  if s.size = 0 then mapped else min mapped (alignUp s.size pageSize)

def mappedOffset? (alignment : Nat) (sections : List Section) (address : Nat) : Option Nat :=
  if alignment = 0 ∨ alignment ≠ Nat.pow 2 (Nat.log2 alignment) then none
  else
    (sections.find? fun s =>
      s.address ≤ address && address < s.address + mappedSize alignment s).map
      fun s => s.rawOffset + (address - s.address)

/--
Whether a loader finds the runtime header and the start of the metadata: the header,
the root with a version text, and the count of streams have to be in the file.
-/
def runtimeIsReadable (data : Bytes) (alignment : Nat) (sections : List Section)
    (directory : Nat × Nat) : Bool :=
  Option.isSome do
    let header ← (data.slice (← mappedOffset? alignment sections directory.1) 72).toOption
    let start ← mappedOffset? alignment sections (← field? header 8 4)
    let _ ← field? data start 4
    if start + (← field? header 12 4) > data.size then none
    let root ← (data.slice start 16).toOption
    let length ← field? root 12 4
    let version ← (data.slice (start + 16) length).toOption
    let _ ← Text.decode? version.toList
    field? data (start + 16 + length) 4

def read? (data : Bytes) : Option ImageHeaders := do
  let stub ← (data.slice 0 0x40).toOption
  if (← field? stub 0 2) ≠ 0x5a4d then none
  let start ← field? stub 0x3c 4
  if start < 0x40 then none
  if (← field? data start 4) ≠ 0x4550 then none
  let file ← (data.slice (start + 4) 20).toOption
  let sectionCount ← field? file 2 2
  let optionalSize ← field? file 16 2
  let optional ←
    if optionalSize = 0 then some none else (readOptional data (start + 24)).map some
  if sectionCount > data.size / sectionSize then none
  let sections ← readSections data sectionCount (start + 24 + optionalSize)
  match optional with
  | some (alignment, some directory) =>
      if runtimeIsReadable data alignment sections directory then some { sections, optional }
      else none
  | _ => some { sections, optional }

end ImageHeaders

def Image.load (data : Bytes) : Except Error Image :=
  if data.isEmpty then
    .error .empty
  else
    match ImageHeaders.read? data with
    | none => .error .unreadableImage
    | some ⟨_, none⟩ => .error (.malformed .noOptionalHeader)
    | some ⟨_, some (_, none)⟩ => .error (.malformed .noRuntimeDirectory)
    | some ⟨sections, some (_, some runtimeDirectory)⟩ => .ok { data, sections, runtimeDirectory }

end AssemblyGate

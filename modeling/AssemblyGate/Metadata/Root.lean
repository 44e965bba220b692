import AssemblyGate.Bytes
import AssemblyGate.Text.Utf8

/-!
# The metadata root

Metadata starts with a signature, a version text and a directory of streams.
-/

namespace AssemblyGate

structure StreamHeader where
  offset : Nat
  size : Nat
  name : String
  deriving DecidableEq, Repr

namespace StreamHeader

def names : List String := ["#Strings", "#US", "#Blob", "#GUID", "#~", "#-", "#Pdb"]

/-- A name has to end within this many bytes. -/
def nameLimit : Nat := 32

def read (data : Bytes) (offset : Nat) : Except Error StreamHeader := do
  if data.size < offset + 9 then
    throw .outOfBounds
  let field := (data.extract (offset + 8) (offset + 8 + nameLimit)).toList
  if !field.contains 0 then
    throw (.malformed .unterminatedStreamName)
  let name := Text.decodeLossy (field.takeWhile (· != 0))
  if !names.contains name then
    throw (.malformed (.streamName name))
  pure { offset := ← data.number offset 4, size := ← data.number (offset + 4) 4, name }

/-- The size of the header: its name with the zero byte is padded to words. -/
def byteSize (header : StreamHeader) : Nat :=
  8 + (header.name.utf8ByteSize + 1 + 3) / 4 * 4

end StreamHeader

structure Root where
  signature : Nat
  major : Nat
  minor : Nat
  versionLength : Nat
  version : String
  streams : List StreamHeader
  deriving DecidableEq, Repr

namespace Root

def magic : Nat := 0x424a5342

def maxStreams : Nat := 6

private def withoutTrailingZeros (text : String) : String :=
  String.ofList (text.toList.reverse.dropWhile (· == '\x00')).reverse

def readStreams (data : Bytes) :
    (remaining offset : Nat) → (found : List StreamHeader) → Except Error (List StreamHeader)
  | 0, _, found => pure found
  | remaining + 1, offset, found => do
      let header ← StreamHeader.read data offset
      if header.offset + header.size ≥ wordLimit then
        throw (.malformed (.streamOverflow header.offset header.size))
      if header.offset + header.size > data.size then
        throw .outOfBounds
      if found.any fun other => other.name == header.name then
        throw (.malformed (.duplicateStream header.name))
      readStreams data remaining (offset + header.byteSize) (found ++ [header])

def read (data : Bytes) : Except Error Root := do
  if data.size < 32 then
    throw .outOfBounds
  let signature ← data.number 0 4
  if signature ≠ magic then
    throw (.malformed (.rootSignature signature))
  let versionLength ← data.number 12 4
  let versionEnd := 16 + versionLength
  if versionEnd + 4 > data.size then
    throw .outOfBounds
  let version := withoutTrailingZeros (Text.decodeLossy (data.extract 16 versionEnd).toList)
  let count ← data.number (versionEnd + 2) 2
  if count = 0 ∨ count > maxStreams then
    throw (.malformed (.streamCount count))
  let streams ← readStreams data count (versionEnd + 4) []
  pure {
    signature
    major := ← data.number 4 2
    minor := ← data.number 6 2
    versionLength
    version
    streams }

def stream? (root : Root) (name : String) : Option StreamHeader :=
  root.streams.find? fun header => header.name == name

end Root

end AssemblyGate

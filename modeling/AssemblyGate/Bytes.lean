import AssemblyGate.Error
import AssemblyGate.Number

/-!
# Reading bytes

Images and metadata are arrays of bytes that are read at offsets; signatures and
blobs are short and are read from the front.  Whole numbers are little-endian
at a fixed width, or compressed: the leading bits of the first byte tell
whether one, two or four bytes hold the number, high byte first.
-/

namespace AssemblyGate

abbrev Bytes := Array UInt8

namespace Bytes

def littleEndian : List UInt8 → Nat
  | [] => 0
  | byte :: rest => byte.toNat + 256 * littleEndian rest

def slice (data : Bytes) (offset length : Nat) : Except Error Bytes :=
  if offset + length ≤ data.size then
    .ok (data.extract offset (offset + length))
  else
    .error .outOfBounds

def number (data : Bytes) (offset width : Nat) : Except Error Nat :=
  (slice data offset width).map fun bytes => littleEndian bytes.toList

end Bytes

/-! ## Compressed numbers -/

/--
Read one compressed number.  The bytes that were consumed before a failure stay
consumed.
-/
def compressedNumber : List UInt8 → Except Error Nat × List UInt8
  | [] => (.error .outOfBounds, [])
  | lead :: rest =>
      if lead < 0x80 then
        (.ok lead.toNat, rest)
      else if lead < 0xc0 then
        match rest with
        | low :: rest => (.ok ((lead.toNat - 0x80) * 256 + low.toNat), rest)
        | [] => (.error .outOfBounds, [])
      else if lead < 0xe0 then
        match rest with
        | high :: mid :: low :: rest =>
            (.ok ((((lead.toNat - 0xc0) * 256 + high.toNat) * 256 + mid.toNat) * 256 + low.toNat),
              rest)
        | _ => (.error .outOfBounds, [])
      else
        (.error (.malformed (.compressedInteger lead)), rest)

def encodeCompressed (value : Nat) : List UInt8 :=
  if value < 0x80 then
    [UInt8.ofNat value]
  else if value < 0x4000 then
    [UInt8.ofNat (0x80 + value / 0x100), UInt8.ofNat value]
  else
    [UInt8.ofNat (0xc0 + value / 0x1000000), UInt8.ofNat (value / 0x10000),
      UInt8.ofNat (value / 0x100), UInt8.ofNat value]

def compressedTables : List TableId := [.typeDef, .typeRef, .typeSpec]

/--
The token that a compressed number stands for: the two low bits choose the table
and the others are laid over the row.
-/
def compressedToken (value : Nat) : Except Error Token :=
  match compressedTables[value % 4]? with
  | some table => .ok (Token.ofNat (table.tokenBase ||| value / 4))
  | none => .error (.malformed (.compressedToken value))

end AssemblyGate

import AssemblyGate.Bytes
import AssemblyGate.Text.Utf8

/-!
# Heaps

Names live in the string heap as text that ends with a zero byte, signatures in
the blob heap as bytes behind their length, and literals in the heap of user
strings.  Every heap starts with a zero byte, so index zero is the empty entry.
-/

namespace AssemblyGate.Heap

def startsWithZero (heap : Bytes) : Bool := heap[0]? == some 0

def checkStrings (heap : Bytes) : Except Error Unit :=
  if startsWithZero heap then .ok () else .error (.malformed .stringsHeap)

def checkBlobs (heap : Bytes) : Except Error Unit :=
  if startsWithZero heap then .ok () else .error (.malformed .blobHeap)

def checkUserStrings (heap : Bytes) : Except Error Unit :=
  if startsWithZero heap then .ok () else .error (.malformed .userStringsHeap)

def untilZero (heap : Bytes) : (remaining offset : Nat) → Option (List UInt8)
  | 0, _ => none
  | remaining + 1, offset =>
      match heap[offset]? with
      | none => none
      | some byte =>
          if byte = 0 then some []
          else (untilZero heap remaining (offset + 1)).map (byte :: ·)

def string (heap : Bytes) (index : Nat) : Except Error String :=
  if index ≥ heap.size then
    .error .outOfBounds
  else
    match (untilZero heap (heap.size - index) index).bind Text.decode? with
    | some text => .ok text
    | none => .error (.malformed (.string index))

/-- The text at an index, where index zero and the empty text mean that there is none. -/
def string? (heap : Bytes) (index : Nat) : Except Error (Option String) :=
  if index = 0 then
    .ok none
  else
    (string heap index).map fun text => if text.isEmpty then none else some text

def blob (heap : Bytes) (index : Nat) : Except Error Bytes :=
  if index ≥ heap.size then
    .error .outOfBounds
  else
    let lead := (heap.extract index (index + 4)).toList
    match compressedNumber lead with
    | (.error error, _) => .error error
    | (.ok length, rest) => heap.slice (index + (lead.length - rest.length)) length

def hasUserString (heap : Bytes) (index : Nat) : Bool := index != 0 && index < heap.size

end AssemblyGate.Heap

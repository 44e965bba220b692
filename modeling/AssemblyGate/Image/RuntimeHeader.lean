import AssemblyGate.Bytes

/-!
# The runtime header

The header that makes an image a managed one.  It locates the metadata and tells
whether the image holds native code as well.
-/

namespace AssemblyGate

structure RuntimeHeader where
  size : Nat
  runtime : Nat × Nat
  metadata : Nat × Nat
  flags : Nat
  entryPoint : Nat
  vtableFixups : Nat × Nat
  nativeHeader : Nat × Nat
  deriving DecidableEq, Repr

namespace RuntimeHeader

def byteSize : Nat := 72

private def directory (data : Bytes) (offset : Nat) : Except Error (Nat × Nat) := do
  pure (← data.number offset 4, ← data.number (offset + 4) 4)

def read (data : Bytes) : Except Error RuntimeHeader := do
  if data.size < byteSize then
    throw .outOfBounds
  let size ← data.number 0 4
  if size ≠ byteSize then
    throw (.malformed (.runtimeHeaderSize size))
  let metadata ← directory data 8
  if metadata.1 = 0 ∨ metadata.2 = 0 then
    throw (.malformed .emptyMetadataDirectory)
  pure {
    size
    runtime := (← data.number 4 2, ← data.number 6 2)
    metadata
    flags := ← data.number 16 4
    entryPoint := ← data.number 20 4
    vtableFixups := ← directory data 48
    nativeHeader := ← directory data 64 }

def hasNativeCode (header : RuntimeHeader) : Bool := header.nativeHeader.2 != 0

end RuntimeHeader

end AssemblyGate

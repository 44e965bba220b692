import AssemblyGate.Body.Defect
import AssemblyGate.Bytes

/-!
# Method bodies

A body starts with a header of one byte or of twelve, followed by its code.  A long
header may announce sections behind the code; they hold the clauses that protect
parts of the code by handlers.
-/

namespace AssemblyGate

structure ExceptionClause where
  flags : Nat
  tryOffset : Nat
  tryLength : Nat
  handlerOffset : Nat
  handlerLength : Nat
  /-- The token of the type that is caught, or the offset of a filter. -/
  classOrFilter : Nat
  deriving DecidableEq, Repr

namespace ExceptionClause

def hasFilter (clause : ExceptionClause) : Bool := clause.flags.testBit 0

end ExceptionClause

structure MethodBody where
  code : Bytes
  maxStack : Nat
  locals : Nat
  clauses : List ExceptionClause
  deriving DecidableEq, Repr

namespace MethodBody

private def numberOr (kind : DefectKind) (data : Bytes) (offset width : Nat) :
    Except Defect Nat :=
  (data.number offset width).mapError fun _ => .located kind offset "truncated data"

private def clauseNumber (data : Bytes) (offset width : Nat) : Except Defect Nat :=
  numberOr .invalidExceptionClause data offset width

def longHeaderSize : Nat := 12

def align4 (offset : Nat) : Nat := (offset + 3) / 4 * 4

/-! ## Exception clauses -/

def longClause (data : Bytes) (offset : Nat) : Except Defect ExceptionClause := do
  pure {
    flags := ← clauseNumber data offset 4
    tryOffset := ← clauseNumber data (offset + 4) 4
    tryLength := ← clauseNumber data (offset + 8) 4
    handlerOffset := ← clauseNumber data (offset + 12) 4
    handlerLength := ← clauseNumber data (offset + 16) 4
    classOrFilter := ← clauseNumber data (offset + 20) 4 }

def shortClause (data : Bytes) (offset : Nat) : Except Defect ExceptionClause := do
  pure {
    flags := ← clauseNumber data offset 2
    tryOffset := ← clauseNumber data (offset + 2) 2
    tryLength := ← clauseNumber data (offset + 4) 1
    handlerOffset := ← clauseNumber data (offset + 5) 2
    handlerLength := ← clauseNumber data (offset + 7) 1
    classOrFilter := ← clauseNumber data (offset + 8) 4 }

def sectionSize (data : Bytes) (offset : Nat) (isLong : Bool) : Except Defect Nat := do
  let low ← clauseNumber data (offset + 1) 1
  if isLong then
    let high ← clauseNumber data (offset + 2) 2
    pure (low + high * 0x100)
  else
    pure low

def sectionClauses (data : Bytes) (start : Nat) :
    Except Defect (Nat × Nat × List ExceptionClause) := do
  let lead ← clauseNumber data start 1
  if !lead.testBit 0 then
    throw (.located .invalidExceptionClause start
      ("unknown data section " ++ Text.hexMarked 1 lead))
  let isLong := lead.testBit 6
  let size ← sectionSize data start isLong
  let entry := if isLong then 24 else 12
  if size < 4 ∨ (size - 4) % entry ≠ 0 ∨ start + size > data.size then
    throw (.located .invalidExceptionClause start s!"invalid section size {size}")
  let clauses ← (List.range ((size - 4) / entry)).mapM fun position =>
    let offset := start + 4 + position * entry
    if isLong then longClause data offset else shortClause data offset
  pure (lead, size, clauses)

/-- The clauses of all sections from an offset on; every section is at least four bytes. -/
def allClauses (data : Bytes) : (fuel start : Nat) → Except Defect (List ExceptionClause)
  | 0, _ => .ok []
  | fuel + 1, start => do
      let (lead, size, clauses) ← sectionClauses data start
      if lead.testBit 7 then
        let others ← allClauses data fuel (align4 (start + size))
        pure (clauses ++ others)
      else
        pure clauses

/-! ## Headers -/

private def header (data : Bytes) (offset width : Nat) : Except Defect Nat :=
  numberOr .invalidMethodHeader data offset width

private def codeAt (data : Bytes) (offset size : Nat) (detail : String) :
    Except Defect Bytes :=
  (data.slice offset size).mapError fun _ => .general .codeOutOfBounds detail

def readShort (data : Bytes) (lead : Nat) : Except Defect MethodBody := do
  let size := lead / 4
  let code ← codeAt data 1 size s!"tiny body of {size} bytes runs past the image"
  pure { code, maxStack := 8, locals := 0, clauses := [] }

def readLong (data : Bytes) : Except Defect MethodBody := do
  let flags ← header data 0 2
  let maxStack ← header data 2 2
  let size ← header data 4 4
  let locals ← header data 8 4
  let headerSize := flags / 0x1000 * 4
  if headerSize ≠ longHeaderSize then
    throw (.general .invalidMethodHeader s!"fat header declares a size of {headerSize} bytes")
  let code ← codeAt data longHeaderSize size s!"fat body of {size} bytes runs past the image"
  let clauses ←
    if flags.testBit 3 then
      allClauses data (data.size + 1) (align4 (longHeaderSize + size))
    else pure []
  pure { code, maxStack, locals, clauses }

def read (data : Bytes) : Except Defect MethodBody :=
  match data[0]? with
  | none => .error (.general .invalidMethodHeader "empty method body")
  | some lead =>
      if lead.toNat % 4 = 2 then readShort data lead.toNat
      else if lead.toNat % 4 = 3 then readLong data
      else
        .error (.general .invalidMethodHeader
          ("unknown header format " ++ Text.hexMarked 1 (lead.toNat % 4)))

end MethodBody

end AssemblyGate

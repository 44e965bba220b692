import AssemblyGate.Body.Defect
import AssemblyGate.Body.Opcode
import AssemblyGate.Bytes

/-!
# Code

The bytes of a body are decoded from the first to the last as a sequence of
instructions.  Code is well formed if the instructions fill it exactly.
-/

namespace AssemblyGate

structure Instruction where
  start : Nat
  stop : Nat
  /-- Where the instruction may jump to, counted from the start of the code. -/
  targets : List Int
  token : Option (Token × TokenKind)
  deriving DecidableEq, Repr

namespace Code

def signedByte (value : Nat) : Int := Int.bmod value 0x100

def signedWord (value : Nat) : Int := Int.bmod value wordLimit

private def truncated (start : Nat) (detail : String) : Defect :=
  .located .truncatedInstruction start detail

def operandNumber (code : Bytes) (start offset width : Nat) : Except Defect Nat :=
  (code.number offset width).mapError fun _ =>
    truncated start "operand runs past the end of the code"

def opcodeAt (code : Bytes) (start : Nat) : Except Defect (Operand × Nat) := do
  let first ← operandNumber code start start 1
  if first = Opcode.escape.toNat then
    let second ← operandNumber code start (start + 1) 1
    match Opcode.escapedOperand? (UInt8.ofNat second) with
    | some operand => pure (operand, start + 2)
    | none =>
        throw (.located .unknownOpcode start ("opcode 0xFE " ++ Text.hexMarked 2 second))
  else
    match Opcode.operand? (UInt8.ofNat first) with
    | some operand => pure (operand, start + 1)
    | none => throw (.located .unknownOpcode start ("opcode " ++ Text.hexMarked 2 first))

/-- The targets of a jump table at `offset`, relative to the end of the table. -/
def switchTargets (code : Bytes) (start offset count : Nat) : Except Defect (List Int) :=
  (List.range count).mapM fun position => do
    let delta ← operandNumber code start (offset + 4 * position) 4
    pure ((offset + 4 * count : Nat) + signedWord delta)

def instructionAt (code : Bytes) (start : Nat) : Except Defect Instruction := do
  let (operand, offset) ← opcodeAt code start
  match operand with
  | .none => pure { start, stop := offset, targets := [], token := none }
  | .bytes count =>
      if offset + count > code.size then
        throw (truncated start "operand runs past the end of the code")
      else
        pure { start, stop := offset + count, targets := [], token := none }
  | .shortBranch =>
      let delta ← operandNumber code start offset 1
      pure {
        start, stop := offset + 1, targets := [(offset + 1 : Nat) + signedByte delta], token := none }
  | .branch =>
      let delta ← operandNumber code start offset 4
      pure {
        start, stop := offset + 4, targets := [(offset + 4 : Nat) + signedWord delta], token := none }
  | .switch =>
      let count ← operandNumber code start offset 4
      let table := offset + 4
      if table + 4 * count > code.size then
        throw (truncated start s!"switch table of {count} targets runs past the end")
      else
        let targets ← switchTargets code start table count
        pure { start, stop := table + 4 * count, targets, token := none }
  | .token kind =>
      let token ← operandNumber code start offset 4
      pure { start, stop := offset + 4, targets := [], token := some (Token.ofNat token, kind) }

def instructionsFrom (code : Bytes) :
    (fuel offset : Nat) → (found : List Instruction) → Except Defect (List Instruction)
  | 0, _, found => .ok found.reverse
  | fuel + 1, offset, found =>
      if offset < code.size then
        match instructionAt code offset with
        | .ok instruction => instructionsFrom code fuel instruction.stop (instruction :: found)
        | .error defect => .error defect
      else
        .ok found.reverse

/-- Every instruction takes a byte, so the size of the code bounds their number. -/
def instructions (code : Bytes) : Except Defect (List Instruction) :=
  instructionsFrom code code.size 0 []

end Code

end AssemblyGate

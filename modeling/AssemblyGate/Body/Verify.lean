import Std.Data.HashSet
import AssemblyGate.Body.Basic
import AssemblyGate.Body.Code
import AssemblyGate.Metadata.Resolve

/-!
# Verification of method bodies

Every method that needs a body has to have one, with a known header, instructions that
fill the code, jumps to instructions, tokens that point at rows of the right
tables, and clauses that cover whole instructions.
-/

namespace AssemblyGate

namespace MethodBody

def boundaries (code : Bytes) (instructions : List Instruction) : Std.HashSet Nat :=
  Std.HashSet.ofList (code.size :: instructions.map Instruction.start)

/-- A target in two's complement when it lies in front of the code. -/
def showTarget (target : Int) : String :=
  "target " ++ Text.hexMarked 1 (target % 0x10000000000000000).toNat

def branchDefect (size : Nat) (starts : Std.HashSet Nat) (start : Nat) (target : Int) :
    Option Defect :=
  if target < 0 ∨ target ≥ size then
    some (.located .branchOutOfBounds start (showTarget target))
  else if !starts.contains target.toNat then
    some (.located .branchIntoInstruction start (showTarget target))
  else none

def coversInstructions (size : Nat) (starts : Std.HashSet Nat) (offset length : Nat) : Bool :=
  length > 0 && offset + length ≤ size && starts.contains offset &&
    starts.contains (offset + length)

private def showBlock (offset length : Nat) : String :=
  Text.hexMarked 1 offset ++ "+" ++ Text.hexMarked 1 length ++ " does not cover whole instructions"

def clauseDefect (size : Nat) (starts : Std.HashSet Nat) (clause : ExceptionClause) :
    Option Defect :=
  if !coversInstructions size starts clause.tryOffset clause.tryLength then
    some (.general .invalidExceptionClause
      ("try block " ++ showBlock clause.tryOffset clause.tryLength))
  else if !coversInstructions size starts clause.handlerOffset clause.handlerLength then
    some (.general .invalidExceptionClause
      ("handler " ++ showBlock clause.handlerOffset clause.handlerLength))
  else if clause.hasFilter &&
      !(clause.classOrFilter < size && starts.contains clause.classOrFilter) then
    some (.general .invalidExceptionClause
      ("filter at " ++ Text.hexMarked 1 clause.classOrFilter ++ " is not an instruction"))
  else none

end MethodBody

namespace Metadata

variable (metadata : Metadata)

def userStringTable : Nat := 0x70

def hasToken (token : Token) (kind : TokenKind) : Bool :=
  if kind = .string then
    token.table == userStringTable && metadata.userString? token.row == some true
  else
    match TableId.ofNumber? token.table with
    | none => false
    | some table =>
        kind.tables.contains table && token.row ≥ 1 && token.row ≤ metadata.rowCount table

def tokenDefect (instruction : Instruction) : Option Defect :=
  match instruction.token with
  | none => none
  | some (token, kind) =>
      if metadata.hasToken token kind then none
      else some (.located .invalidToken instruction.start
        (kind.name ++ " token " ++ token.display))

def localsDefect (body : MethodBody) : Option Defect :=
  if body.locals ≠ 0 ∧ !metadata.hasToken (Token.ofNat body.locals) .signature then
    some (.general .invalidToken ("locals signature " ++ (Token.ofNat body.locals).display))
  else none

def bodyDefects (body : MethodBody) : List Defect :=
  (metadata.localsDefect body).toList ++
    match Code.instructions body.code with
    | .error defect => [defect]
    | .ok instructions =>
        let size := body.code.size
        let starts := MethodBody.boundaries body.code instructions
        (instructions.flatMap fun instruction =>
          instruction.targets.filterMap
            (MethodBody.branchDefect size starts instruction.start)) ++
        instructions.filterMap metadata.tokenDefect ++
        body.clauses.filterMap (MethodBody.clauseDefect size starts)

end Metadata

/-! ## Methods -/

namespace MethodDefRow

/-- The method is implemented elsewhere, so that it needs no body. -/
def isImplementedElsewhere (row : MethodDefRow) : Bool :=
  row.isAbstract || row.isForwarded || row.codeType == 3

end MethodDefRow

structure VerifyContext where
  metadata : Metadata
  assembly : String
  systemAssembly : String

namespace VerifyContext

variable (context : VerifyContext)

def isSystemAssembly : Bool :=
  !context.systemAssembly.isEmpty && context.assembly == context.systemAssembly

def missingBody (row : MethodDefRow) : List Defect :=
  if row.isImplementedElsewhere then []
  else if !row.isInternalCall then
    [.general .missingBody "method has no RVA"]
  else if context.isSystemAssembly then []
  else
    [.general .missingBody
      ("internal call outside the system assembly '" ++ context.systemAssembly ++ "'")]

def methodDefects (row : MethodDefRow) : Except Error (List Defect) :=
  if row.rva = 0 then
    .ok (context.missingBody row)
  else
    match context.metadata.bodyAt row.rva with
    | .error .notSupported => .error .notSupported
    | .error _ =>
        .ok [.general .codeOutOfBounds ("body RVA " ++ Text.hexMarked 1 row.rva ++ " is not mapped")]
    | .ok data =>
        match MethodBody.read data with
        | .error defect => .ok [defect]
        | .ok body => .ok (context.metadata.bodyDefects body)

end VerifyContext

structure Finding where
  kind : DefectKind
  token : Token
  method : String
  offset : Option Nat
  detail : String
  deriving DecidableEq, Repr

namespace Finding

def ofDefect (token : Token) (method : String) (defect : Defect) : Finding :=
  { kind := defect.kind, token, method, offset := defect.offset, detail := defect.detail }

def display (finding : Finding) : String :=
  finding.method ++
    (match finding.offset with
    | some offset => " [IL_" ++ Text.hexUpper 4 offset ++ "]"
    | none => "") ++
    ": " ++ finding.kind.name ++ " (" ++ finding.detail ++ ")"

end Finding

namespace VerifyContext

variable (context : VerifyContext)

/-- The findings in one method.  Its name is read only if there are some. -/
def methodFindings (type : TypeExpr) (row : MethodDefRow) : Except Error (List Finding) := do
  let defects ← context.methodDefects row
  if defects.isEmpty then
    pure []
  else
    let name ← context.metadata.string row.name
    pure (defects.map (Finding.ofDefect row.token (type.display ++ "." ++ name)))

def typeFindings (rid : Nat) : Except Error (List Finding) := do
  let methods ← context.metadata.methodsOf rid
  if methods.isEmpty then
    pure []
  else
    let type ← context.metadata.typeDefinition rid
    let found ← methods.mapM (context.methodFindings type)
    pure found.flatten

end VerifyContext

end AssemblyGate

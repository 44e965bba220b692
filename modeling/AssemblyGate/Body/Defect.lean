import AssemblyGate.Text.Hex

/-!
# Defects of method bodies

What can be wrong with a method body, where, and how it is shown.
-/

namespace AssemblyGate

inductive DefectKind where
  | invalidMethodHeader
  | codeOutOfBounds
  | unknownOpcode
  | truncatedInstruction
  | branchOutOfBounds
  | branchIntoInstruction
  | invalidToken
  | invalidExceptionClause
  | missingBody
  deriving DecidableEq, Repr

namespace DefectKind

def all : List DefectKind :=
  [.invalidMethodHeader, .codeOutOfBounds, .unknownOpcode, .truncatedInstruction,
   .branchOutOfBounds, .branchIntoInstruction, .invalidToken, .invalidExceptionClause,
   .missingBody]

def name : DefectKind → String
  | .invalidMethodHeader => "InvalidMethodHeader"
  | .codeOutOfBounds => "CodeOutOfBounds"
  | .unknownOpcode => "UnknownOpcode"
  | .truncatedInstruction => "TruncatedInstruction"
  | .branchOutOfBounds => "BranchOutOfBounds"
  | .branchIntoInstruction => "BranchIntoInstruction"
  | .invalidToken => "InvalidToken"
  | .invalidExceptionClause => "InvalidExceptionClause"
  | .missingBody => "MissingBody"

def ofName? (name : String) : Option DefectKind :=
  all.find? fun kind => kind.name == name

end DefectKind

/-- A defect of one body.  The offset is missing when no single place is at fault. -/
structure Defect where
  kind : DefectKind
  offset : Option Nat
  detail : String
  deriving DecidableEq, Repr

namespace Defect

def general (kind : DefectKind) (detail : String) : Defect := ⟨kind, none, detail⟩

def located (kind : DefectKind) (offset : Nat) (detail : String) : Defect :=
  ⟨kind, some offset, detail⟩

end Defect

end AssemblyGate

import AssemblyGate.Table.Basic

/-!
# Opcodes

Which opcodes are assigned, and what operand follows each of them.
-/

namespace AssemblyGate

inductive TokenKind where
  | method
  | field
  | type
  | signature
  | string
  | any
  deriving DecidableEq, Repr

namespace TokenKind

def name : TokenKind → String
  | .method => "Method"
  | .field => "Field"
  | .type => "Type"
  | .signature => "Signature"
  | .string => "String"
  | .any => "Any"

/-- The tables of the rows that may be pointed at; literals are in no table. -/
def tables : TokenKind → List TableId
  | .method => [.methodDef, .memberRef, .methodSpec]
  | .field => [.field, .memberRef]
  | .type => [.typeDef, .typeRef, .typeSpec]
  | .signature => [.standAloneSig]
  | .string => []
  | .any => [.typeDef, .typeRef, .typeSpec, .methodDef, .memberRef, .methodSpec, .field]

end TokenKind

inductive Operand where
  | none
  | bytes (count : Nat)
  | shortBranch
  | branch
  | switch
  | token (kind : TokenKind)
  deriving DecidableEq, Repr

namespace Opcode

def escape : UInt8 := 0xfe

def operand? (opcode : UInt8) : Option Operand :=
  let code := opcode.toNat
  if code ≤ 0x0d then some .none
  else if code ≤ 0x13 then some (.bytes 1)
  else if code ≤ 0x1e then some .none
  else if code = 0x1f then some (.bytes 1)
  else if code = 0x20 ∨ code = 0x22 then some (.bytes 4)
  else if code = 0x21 ∨ code = 0x23 then some (.bytes 8)
  else if code = 0x24 then none
  else if code ≤ 0x26 then some .none
  else if code ≤ 0x28 then some (.token .method)
  else if code = 0x29 then some (.token .signature)
  else if code = 0x2a then some .none
  else if code ≤ 0x37 then some .shortBranch
  else if code ≤ 0x44 then some .branch
  else if code = 0x45 then some .switch
  else if code ≤ 0x6e then some .none
  else if code = 0x6f then some (.token .method)
  else if code ≤ 0x71 then some (.token .type)
  else if code = 0x72 then some (.token .string)
  else if code = 0x73 then some (.token .method)
  else if code ≤ 0x75 then some (.token .type)
  else if code = 0x76 then some .none
  else if code ≤ 0x78 then none
  else if code = 0x79 then some (.token .type)
  else if code = 0x7a then some .none
  else if code ≤ 0x80 then some (.token .field)
  else if code = 0x81 then some (.token .type)
  else if code ≤ 0x8b then some .none
  else if code ≤ 0x8d then some (.token .type)
  else if code = 0x8e then some .none
  else if code = 0x8f then some (.token .type)
  else if code ≤ 0xa2 then some .none
  else if code ≤ 0xa5 then some (.token .type)
  else if code ≤ 0xb2 then none
  else if code ≤ 0xba then some .none
  else if code = 0xc2 then some (.token .type)
  else if code = 0xc3 then some .none
  else if code = 0xc6 then some (.token .type)
  else if code = 0xd0 then some (.token .any)
  else if code ≤ 0xd0 then none
  else if code ≤ 0xdc then some .none
  else if code = 0xdd then some .branch
  else if code = 0xde then some .shortBranch
  else if code ≤ 0xe0 then some .none
  else none

def escapedOperand? (opcode : UInt8) : Option Operand :=
  let code := opcode.toNat
  if code ≤ 0x05 then some .none
  else if code ≤ 0x07 then some (.token .method)
  else if code = 0x08 then none
  else if code ≤ 0x0e then some (.bytes 2)
  else if code = 0x0f ∨ code = 0x11 then some .none
  else if code = 0x10 then none
  else if code = 0x12 then some (.bytes 1)
  else if code ≤ 0x14 then some .none
  else if code ≤ 0x16 then some (.token .type)
  else if code ≤ 0x18 then some .none
  else if code = 0x19 then some (.bytes 1)
  else if code = 0x1a then some .none
  else if code = 0x1b then none
  else if code = 0x1c then some (.token .type)
  else if code ≤ 0x1e then some .none
  else none

end Opcode

end AssemblyGate

import AssemblyGate.Bytes
import AssemblyGate.Primitive

/-!
# Signatures

A signature describes the type of a field, of a method or of a type
specification as a tree.  The leaves that point into the metadata tables are
kept abstract: `SigType η` has leaves of type `η`, so the same tree serves for
bare tokens and for types that are already resolved.
-/

namespace AssemblyGate

structure SignatureHeader where
  byte : UInt8
  deriving DecidableEq, Repr

namespace SignatureHeader

/-- The calling convention, or the kind of a signature that is not a method's. -/
def kind (header : SignatureHeader) : UInt8 := header.byte &&& 0x0f

def isField (header : SignatureHeader) : Bool := header.byte == 0x06

def isMethod (header : SignatureHeader) : Bool := header.kind ≤ 0x05

def isGeneric (header : SignatureHeader) : Bool := header.byte &&& 0x10 != 0

def hasThis (header : SignatureHeader) : Bool := header.byte &&& 0x20 != 0

def explicitThis (header : SignatureHeader) : Bool := header.byte &&& 0x40 != 0

def isVararg (header : SignatureHeader) : Bool := header.kind == 0x05

end SignatureHeader

structure ArrayShape where
  rank : Nat
  sizes : List Nat
  lowerBounds : List Nat
  deriving DecidableEq, Repr

/--
A method signature over a representation of types.  `required` counts the
parameters before the variable part, or all of them when there is none.
-/
structure MethodSignature (τ : Type) where
  header : SignatureHeader
  returnType : τ
  required : Nat
  arity : Nat
  parameters : List τ
  deriving Repr

inductive SigType (η : Type) where
  | primitive (builtin : Primitive)
  | pointer (element : SigType η)
  | byRef (element : SigType η)
  | handle (leaf : η)
  | typeParameter (index : Nat)
  | methodParameter (index : Nat)
  | array (element : SigType η) (shape : ArrayShape)
  | szArray (element : SigType η)
  | generic (definition : SigType η) (arguments : List (SigType η))
  | functionPointer (header : SignatureHeader) (returnType : SigType η) (required arity : Nat)
      (parameters : List (SigType η))
  | modified (modifier : η) (underlying : SigType η) (required : Bool)
  | pinned (element : SigType η)
  deriving Repr

inductive Element where
  | primitive (builtin : Primitive)
  | pointer
  | byRef
  | handle (isValueType : Bool)
  | typeParameter
  | methodParameter
  | array
  | szArray
  | generic
  | functionPointer
  | modifier (required : Bool)
  | pinned
  deriving DecidableEq, Repr

namespace Element

def byte : Element → UInt8
  | .primitive builtin => builtin.elementByte
  | .pointer => 0x0f
  | .byRef => 0x10
  | .handle true => 0x11
  | .handle false => 0x12
  | .typeParameter => 0x13
  | .array => 0x14
  | .generic => 0x15
  | .functionPointer => 0x1b
  | .szArray => 0x1d
  | .methodParameter => 0x1e
  | .modifier true => 0x1f
  | .modifier false => 0x20
  | .pinned => 0x45

def compound : List Element :=
  [.pointer, .byRef, .handle true, .handle false, .typeParameter, .array, .generic,
   .functionPointer, .szArray, .methodParameter, .modifier true, .modifier false, .pinned]

def ofByte? (byte : UInt8) : Option Element :=
  match Primitive.ofElementByte? byte with
  | some builtin => some (.primitive builtin)
  | none => compound.find? fun element => element.byte == byte

@[simp] theorem ofByte?_byte (element : Element) : ofByte? element.byte = some element := by
  cases element with
  | primitive builtin => simp [ofByte?, byte]
  | handle isValueType => cases isValueType <;> decide
  | modifier required => cases required <;> decide
  | _ => decide

end Element

def sentinelByte : UInt8 := 0x41

structure Handle where
  token : Token
  isValueType : Bool
  deriving DecidableEq, Repr

namespace SigType

mutual
def unpinned {η : Type} : SigType η → SigType η
  | .primitive builtin => .primitive builtin
  | .pointer element => .pointer element.unpinned
  | .byRef element => .byRef element.unpinned
  | .handle leaf => .handle leaf
  | .typeParameter index => .typeParameter index
  | .methodParameter index => .methodParameter index
  | .array element shape => .array element.unpinned shape
  | .szArray element => .szArray element.unpinned
  | .generic definition arguments => .generic definition.unpinned (unpinnedList arguments)
  | .functionPointer header returnType required arity parameters =>
      .functionPointer header returnType.unpinned required arity (unpinnedList parameters)
  | .modified modifier underlying required => .modified modifier underlying.unpinned required
  | .pinned element => element.unpinned

def unpinnedList {η : Type} : List (SigType η) → List (SigType η)
  | [] => []
  | type :: types => type.unpinned :: unpinnedList types
end

end SigType

end AssemblyGate

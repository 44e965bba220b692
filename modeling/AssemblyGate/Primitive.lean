/-!
# Built-in types

The types that a signature writes as a single byte.  Each has a library name,
and most have a keyword as well.
-/

namespace AssemblyGate

inductive Primitive where
  | void
  | boolean
  | char
  | sbyte
  | byte
  | int16
  | uint16
  | int32
  | uint32
  | int64
  | uint64
  | single
  | double
  | string
  | typedReference
  | intPtr
  | uintPtr
  | object
  deriving DecidableEq, Repr

namespace Primitive

def all : List Primitive :=
  [.void, .boolean, .char, .sbyte, .byte, .int16, .uint16, .int32, .uint32, .int64, .uint64,
   .single, .double, .string, .typedReference, .intPtr, .uintPtr, .object]

/-- The library name, without its namespace. -/
def name : Primitive → String
  | .void => "Void"
  | .boolean => "Boolean"
  | .char => "Char"
  | .sbyte => "SByte"
  | .byte => "Byte"
  | .int16 => "Int16"
  | .uint16 => "UInt16"
  | .int32 => "Int32"
  | .uint32 => "UInt32"
  | .int64 => "Int64"
  | .uint64 => "UInt64"
  | .single => "Single"
  | .double => "Double"
  | .string => "String"
  | .typedReference => "TypedReference"
  | .intPtr => "IntPtr"
  | .uintPtr => "UIntPtr"
  | .object => "Object"

def keyword? : Primitive → Option String
  | .void => some "void"
  | .boolean => some "bool"
  | .char => some "char"
  | .sbyte => some "sbyte"
  | .byte => some "byte"
  | .int16 => some "short"
  | .uint16 => some "ushort"
  | .int32 => some "int"
  | .uint32 => some "uint"
  | .int64 => some "long"
  | .uint64 => some "ulong"
  | .single => some "float"
  | .double => some "double"
  | .string => some "string"
  | .typedReference => none
  | .intPtr => some "nint"
  | .uintPtr => some "nuint"
  | .object => some "object"

def elementByte : Primitive → UInt8
  | .void => 0x01
  | .boolean => 0x02
  | .char => 0x03
  | .sbyte => 0x04
  | .byte => 0x05
  | .int16 => 0x06
  | .uint16 => 0x07
  | .int32 => 0x08
  | .uint32 => 0x09
  | .int64 => 0x0a
  | .uint64 => 0x0b
  | .single => 0x0c
  | .double => 0x0d
  | .string => 0x0e
  | .typedReference => 0x16
  | .intPtr => 0x18
  | .uintPtr => 0x19
  | .object => 0x1c

def ofName? (name : String) : Option Primitive :=
  all.find? fun primitive => primitive.name == name

def ofKeyword? (keyword : String) : Option Primitive :=
  all.find? fun primitive => primitive.keyword? == some keyword

def ofElementByte? (byte : UInt8) : Option Primitive :=
  all.find? fun primitive => primitive.elementByte == byte

@[simp] theorem ofElementByte?_elementByte (primitive : Primitive) :
    ofElementByte? primitive.elementByte = some primitive := by
  cases primitive <;> rfl

end Primitive

end AssemblyGate

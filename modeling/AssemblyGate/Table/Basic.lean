import AssemblyGate.Token

/-!
# Metadata tables

The 45 tables of the compressed table stream, declared in the order of their
numbers, and the thirteen kinds of coded index.  A coded index packs a tag,
which selects one of several tables, into the low bits of a row number.
-/

namespace AssemblyGate

inductive TableId where
  | module
  | typeRef
  | typeDef
  | fieldPtr
  | field
  | methodPtr
  | methodDef
  | paramPtr
  | param
  | interfaceImpl
  | memberRef
  | constant
  | customAttribute
  | fieldMarshal
  | declSecurity
  | classLayout
  | fieldLayout
  | standAloneSig
  | eventMap
  | eventPtr
  | event
  | propertyMap
  | propertyPtr
  | property
  | methodSemantics
  | methodImpl
  | moduleRef
  | typeSpec
  | implMap
  | fieldRVA
  | encLog
  | encMap
  | assembly
  | assemblyProcessor
  | assemblyOS
  | assemblyRef
  | assemblyRefProcessor
  | assemblyRefOS
  | file
  | exportedType
  | manifestResource
  | nestedClass
  | genericParam
  | methodSpec
  | genericParamConstraint
  deriving DecidableEq, Repr

namespace TableId

def all : List TableId :=
  [.module, .typeRef, .typeDef, .fieldPtr, .field, .methodPtr, .methodDef,
   .paramPtr, .param, .interfaceImpl, .memberRef, .constant, .customAttribute,
   .fieldMarshal, .declSecurity, .classLayout, .fieldLayout, .standAloneSig,
   .eventMap, .eventPtr, .event, .propertyMap, .propertyPtr, .property,
   .methodSemantics, .methodImpl, .moduleRef, .typeSpec, .implMap, .fieldRVA,
   .encLog, .encMap, .assembly, .assemblyProcessor, .assemblyOS, .assemblyRef,
   .assemblyRefProcessor, .assemblyRefOS, .file, .exportedType,
   .manifestResource, .nestedClass, .genericParam, .methodSpec,
   .genericParamConstraint]

def number (table : TableId) : Nat := table.ctorIdx

def ofNumber? (number : Nat) : Option TableId := all[number]?

def name : TableId → String
  | .module => "Module"
  | .typeRef => "TypeRef"
  | .typeDef => "TypeDef"
  | .fieldPtr => "FieldPtr"
  | .field => "Field"
  | .methodPtr => "MethodPtr"
  | .methodDef => "MethodDef"
  | .paramPtr => "ParamPtr"
  | .param => "Param"
  | .interfaceImpl => "InterfaceImpl"
  | .memberRef => "MemberRef"
  | .constant => "Constant"
  | .customAttribute => "CustomAttribute"
  | .fieldMarshal => "FieldMarshal"
  | .declSecurity => "DeclSecurity"
  | .classLayout => "ClassLayout"
  | .fieldLayout => "FieldLayout"
  | .standAloneSig => "StandAloneSig"
  | .eventMap => "EventMap"
  | .eventPtr => "EventPtr"
  | .event => "Event"
  | .propertyMap => "PropertyMap"
  | .propertyPtr => "PropertyPtr"
  | .property => "Property"
  | .methodSemantics => "MethodSemantics"
  | .methodImpl => "MethodImpl"
  | .moduleRef => "ModuleRef"
  | .typeSpec => "TypeSpec"
  | .implMap => "ImplMap"
  | .fieldRVA => "FieldRVA"
  | .encLog => "EncLog"
  | .encMap => "EncMap"
  | .assembly => "Assembly"
  | .assemblyProcessor => "AssemblyProcessor"
  | .assemblyOS => "AssemblyOS"
  | .assemblyRef => "AssemblyRef"
  | .assemblyRefProcessor => "AssemblyRefProcessor"
  | .assemblyRefOS => "AssemblyRefOS"
  | .file => "File"
  | .exportedType => "ExportedType"
  | .manifestResource => "ManifestResource"
  | .nestedClass => "NestedClass"
  | .genericParam => "GenericParam"
  | .methodSpec => "MethodSpec"
  | .genericParamConstraint => "GenericParamConstraint"

def ofName? (name : String) : Option TableId :=
  all.find? fun table => table.name == name

def tokenBase (table : TableId) : Nat := table.number * Token.rowLimit

def token (table : TableId) (rid : Nat) : Token :=
  Token.ofNat (table.tokenBase + rid)

@[simp] theorem ofNumber?_number (table : TableId) :
    ofNumber? table.number = some table := by
  cases table <;> rfl

end TableId

/-! ## Coded indexes -/

inductive CodedKind where
  | typeDefOrRef
  | hasConstant
  | hasCustomAttribute
  | hasFieldMarshal
  | hasDeclSecurity
  | memberRefParent
  | hasSemantics
  | methodDefOrRef
  | memberForwarded
  | implementation
  | customAttributeType
  | resolutionScope
  | typeOrMethodDef
  deriving DecidableEq, Repr

namespace CodedKind

def all : List CodedKind :=
  [.typeDefOrRef, .hasConstant, .hasCustomAttribute, .hasFieldMarshal, .hasDeclSecurity,
   .memberRefParent, .hasSemantics, .methodDefOrRef, .memberForwarded, .implementation,
   .customAttributeType, .resolutionScope, .typeOrMethodDef]

def name : CodedKind → String
  | .typeDefOrRef => "TypeDefOrRef"
  | .hasConstant => "HasConstant"
  | .hasCustomAttribute => "HasCustomAttribute"
  | .hasFieldMarshal => "HasFieldMarshal"
  | .hasDeclSecurity => "HasDeclSecurity"
  | .memberRefParent => "MemberRefParent"
  | .hasSemantics => "HasSemantics"
  | .methodDefOrRef => "MethodDefOrRef"
  | .memberForwarded => "MemberForwarded"
  | .implementation => "Implementation"
  | .customAttributeType => "CustomAttributeType"
  | .resolutionScope => "ResolutionScope"
  | .typeOrMethodDef => "TypeOrMethodDef"

def ofName? (name : String) : Option CodedKind :=
  all.find? fun kind => kind.name == name

/--
The tables of the kind in the order of their tags.  The tags of a custom
attribute constructor that the format leaves unused read as the method tables.
-/
def tables : CodedKind → List TableId
  | .typeDefOrRef => [.typeDef, .typeRef, .typeSpec]
  | .hasConstant => [.field, .param, .property]
  | .hasCustomAttribute =>
      [.methodDef, .field, .typeRef, .typeDef, .param, .interfaceImpl, .memberRef, .module,
       .declSecurity, .property, .event, .standAloneSig, .moduleRef, .typeSpec, .assembly,
       .assemblyRef, .file, .exportedType, .manifestResource, .genericParam,
       .genericParamConstraint, .methodSpec]
  | .hasFieldMarshal => [.field, .param]
  | .hasDeclSecurity => [.typeDef, .methodDef, .assembly]
  | .memberRefParent => [.typeDef, .typeRef, .moduleRef, .methodDef, .typeSpec]
  | .hasSemantics => [.event, .property]
  | .methodDefOrRef => [.methodDef, .memberRef]
  | .memberForwarded => [.field, .methodDef]
  | .implementation => [.file, .assemblyRef, .exportedType]
  | .customAttributeType => [.methodDef, .methodDef, .methodDef, .memberRef, .memberRef]
  | .resolutionScope => [.module, .moduleRef, .assemblyRef, .typeRef]
  | .typeOrMethodDef => [.typeDef, .methodDef]

def tagBits (kind : CodedKind) : Nat :=
  Nat.log2 (kind.tables.length - 1) + 1

def tagLimit (kind : CodedKind) : Nat := Nat.pow 2 kind.tagBits

end CodedKind

/-- A table and a row of it; row zero is nil. -/
structure CodedIndex where
  table : TableId
  row : Nat
  deriving DecidableEq, Repr

namespace CodedIndex

/--
The token of the target.  The row is laid over the table byte, so a row past
24 bits shows in it.
-/
def token (index : CodedIndex) : Token :=
  Token.ofNat (index.table.tokenBase ||| index.row)

def isNil (index : CodedIndex) : Bool := index.row == 0

end CodedIndex

end AssemblyGate

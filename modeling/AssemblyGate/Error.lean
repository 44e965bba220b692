import AssemblyGate.Table.Basic

/-!
# Errors

An assembly that cannot be read, or a policy that cannot be loaded, is refused
with a cause.  Each cause carries the values that its wording shows, and the
wording of all of them is in this file.
-/

namespace AssemblyGate

/-- How many types, scopes or specifications may be entered one inside the other. -/
def nestingLimit : Nat := 50

inductive Malformation where
  | compressedInteger (lead : UInt8)
  | compressedToken (value : Nat)
  | elementType (byte : UInt8)
  | genericDefinition (byte : UInt8)
  | genericWithoutArguments
  | arraySizes (count rank : Nat)
  | arrayLowerBounds (count rank : Nat)
  | methodHeader (byte : UInt8)
  | duplicateSentinel
  | fieldHeader (byte : UInt8)
  | emptySignature (token : Token)
  | noOptionalHeader
  | noRuntimeDirectory
  | runtimeDirectorySize (size : Nat)
  | runtimeHeaderSize (size : Nat)
  | emptyMetadataDirectory
  | sectionOverflow (address size : Nat)
  | unmappedAddress (address : Nat)
  | rootSignature (found : Nat)
  | streamCount (count : Nat)
  | unterminatedStreamName
  | streamName (name : String)
  | streamOverflow (offset size : Nat)
  | duplicateStream (name : String)
  | missingTables
  | missingStrings
  | missingBlobs
  | noTablesPresent
  | stringsHeap
  | blobHeap
  | userStringsHeap
  | string (index : Nat)
  | unnamedAssembly
  | ownedRange (rid : Nat) (table : TableId) (start stop : Nat)
  deriving DecidableEq, Repr

inductive Inconsistency where
  | codedTag (kind : CodedKind) (tag : Nat)
  | rowOutOfRange (rid : Nat) (table : TableId) (rows : Nat)
  | emptyTable (rid : Nat) (table : TableId)
  | cyclicTypeRef (token : Token)
  | cyclicTypeDef (token : Token)
  | notAType (token : Token)
  | memberParent (shape : String)
  deriving DecidableEq, Repr

/-- Constructs that are readable but have no place in the type model. -/
inductive Unmodelled where
  | forwardedType (type : String)
  | crossModuleType (type : String)
  | scope (table : TableId) (type : String)
  deriving DecidableEq, Repr

inductive Expectation where
  | character (expected : Char)
  | whitespace
  | endOfDeclaration
  | identifier
  | memberName
  | parameterIndex
  deriving DecidableEq, Repr

inductive Error where
  | malformed (cause : Malformation)
  | outOfBounds
  | notSupported
  | empty
  | inconsistent (cause : Inconsistency)
  | unmodelled (cause : Unmodelled)
  | nestingLimit
  | declaration (expected : Expectation) (column : Nat) (text : String)
  | unreadableFile
  | unreadableImage
  | unreadableDocument
  deriving DecidableEq, Repr

def Malformation.message : Malformation → String
  | .compressedInteger lead => s!"Invalid compressed uint - {lead.toNat}"
  | .compressedToken value => s!"Invalid compressed token - {value}"
  | .elementType byte => s!"Unsupported ELEMENT_TYPE - {byte.toNat}"
  | .genericDefinition byte =>
      s!"GENERICINST - Next byte is not TYPE_CLASS or TYPE_VALUE - {byte.toNat}"
  | .genericWithoutArguments => "GENERICINST without type arguments"
  | .arraySizes count rank => s!"ARRAY - {count} sizes for rank {rank}"
  | .arrayLowerBounds count rank => s!"ARRAY - {count} lower bounds for rank {rank}"
  | .methodHeader byte => s!"SignatureMethod - invalid start - {byte.toNat}"
  | .duplicateSentinel => "Duplicate vararg sentinel"
  | .fieldHeader byte => s!"SignatureField - invalid start - {byte.toNat}"
  | .emptySignature token => s!"MemberRef {token.display} has an empty signature"
  | .noOptionalHeader => "File does not have an OptionalHeader"
  | .noRuntimeDirectory => "File does not have a CLR runtime header directory"
  | .runtimeDirectorySize size => s!"CLR runtime header directory too small - {size}"
  | .runtimeHeaderSize size => s!"Invalid CLR header size: expected 72, got {size}"
  | .emptyMetadataDirectory => "Metadata directory cannot be empty"
  | .sectionOverflow address size =>
      s!"Section malformed, causing integer overflow - {address} + {size}"
  | .unmappedAddress address => s!"RVA could not be converted to offset - {address}"
  | .rootSignature found => s!"CIL_HEADER_MAGIC does not match - {found}"
  | .streamCount count => s!"Invalid stream count - {count}"
  | .unterminatedStreamName => "Unterminated stream header name"
  | .streamName name => s!"Invalid stream header name - {name}"
  | .streamOverflow offset size =>
      s!"Stream offset and size cause integer overflow - {offset} + {size}"
  | .duplicateStream name => s!"Duplicate stream - {name}"
  | .missingTables => "Metadata has no #~ stream"
  | .missingStrings => "Metadata has no #Strings stream"
  | .missingBlobs => "Metadata has no #Blob stream"
  | .noTablesPresent => "No valid rows in any of the tables"
  | .stringsHeap => "Provided #Strings heap is empty"
  | .blobHeap => "Invalid memory for #Blob heap"
  | .userStringsHeap => "Invalid memory for #US heap"
  | .string index => s!"Invalid string at index - {index}"
  | .unnamedAssembly => "Metadata has neither Assembly nor Module row"
  | .ownedRange rid table start stop =>
      s!"TypeDef {rid} owns an invalid {table.name} range {start}..{stop}"

def Inconsistency.message : Inconsistency → String
  | .codedTag kind tag => s!"Unknown {kind.name} coded index tag {tag}"
  | .rowOutOfRange rid table rows =>
      s!"Row {rid} out of range for {table.name} ({rows} rows)"
  | .emptyTable rid table => s!"Row {rid} of empty table {table.name}"
  | .cyclicTypeRef token =>
      s!"TypeRef {token.display} is part of a cyclic resolution scope chain"
  | .cyclicTypeDef token => s!"TypeDef {token.display} is part of a cyclic NestedClass chain"
  | .notAType token => s!"Token {token.display} is not a TypeDef, TypeRef or TypeSpec"
  | .memberParent shape => s!"Unexpected member reference parent shape: {shape}"

def Unmodelled.message : Unmodelled → String
  | .forwardedType type =>
      s!"Null resolution scope on type Name: {type}. This indicates exported/forwarded types"
  | .crossModuleType type => s!"Cross-module reference to type {type}. "
  | .scope table type => s!"TypeRef to {table.name} for type {type}"

def Expectation.message : Expectation → String
  | .character expected => s!"'{expected}'"
  | .whitespace => "whitespace"
  | .endOfDeclaration => "end of declaration"
  | .identifier => "identifier"
  | .memberName => "member name"
  | .parameterIndex => "generic parameter index"

/--
The text of an error.  Files, images and documents that another layer failed to
read have no text of their own.
-/
def Error.message? : Error → Option String
  | .malformed cause => some cause.message
  | .outOfBounds => some "Out of Bound read would have occurred!"
  | .notSupported => some "This file type is not supported"
  | .empty => some "Provided input was empty"
  | .inconsistent cause => some s!"Invariant violation: {cause.message}"
  | .unmodelled cause => some s!"Unsupported metadata: {cause.message}"
  | .nestingLimit =>
      some s!"Reach the maximum recursion level allowed - {AssemblyGate.nestingLimit}"
  | .declaration expected column text =>
      some
        s!"Invalid sandbox configuration: expected {expected.message} at column {column} in \"{text}\""
  | .unreadableFile => none
  | .unreadableImage => none
  | .unreadableDocument => none

end AssemblyGate

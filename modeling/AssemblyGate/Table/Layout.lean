import AssemblyGate.Bytes

/-!
# Layout of the tables

The columns of every table, and how wide they are.  A column that points into a
heap, into a table or into one of several tables takes two or four bytes,
depending on how much there is to point at.
-/

namespace AssemblyGate

inductive Column where
  | fixed (width : Nat)
  | string
  | guid
  | blob
  | row (table : TableId)
  | coded (kind : CodedKind)
  deriving DecidableEq, Repr

abbrev word16 : Column := .fixed 2

abbrev word32 : Column := .fixed 4

abbrev TableId.columns : TableId → List Column
  | .module => [word16, .string, .guid, .guid, .guid]
  | .typeRef => [.coded .resolutionScope, .string, .string]
  | .typeDef => [word32, .string, .string, .coded .typeDefOrRef, .row .field, .row .methodDef]
  | .fieldPtr => [.row .field]
  | .field => [word16, .string, .blob]
  | .methodPtr => [.row .methodDef]
  | .methodDef => [word32, word16, word16, .string, .blob, .row .param]
  | .paramPtr => [.row .param]
  | .param => [word16, word16, .string]
  | .interfaceImpl => [.row .typeDef, .coded .typeDefOrRef]
  | .memberRef => [.coded .memberRefParent, .string, .blob]
  | .constant => [word16, .coded .hasConstant, .blob]
  | .customAttribute => [.coded .hasCustomAttribute, .coded .customAttributeType, .blob]
  | .fieldMarshal => [.coded .hasFieldMarshal, .blob]
  | .declSecurity => [word16, .coded .hasDeclSecurity, .blob]
  | .classLayout => [word16, word32, .row .typeDef]
  | .fieldLayout => [word32, .row .field]
  | .standAloneSig => [.blob]
  | .eventMap => [.row .typeDef, .row .event]
  | .eventPtr => [.row .event]
  | .event => [word16, .string, .coded .typeDefOrRef]
  | .propertyMap => [.row .typeDef, .row .property]
  | .propertyPtr => [.row .property]
  | .property => [word16, .string, .blob]
  | .methodSemantics => [word16, .row .methodDef, .coded .hasSemantics]
  | .methodImpl => [.row .typeDef, .coded .methodDefOrRef, .coded .methodDefOrRef]
  | .moduleRef => [.string]
  | .typeSpec => [.blob]
  | .implMap => [word16, .coded .memberForwarded, .string, .row .moduleRef]
  | .fieldRVA => [word32, .row .field]
  | .encLog => [word32, word32]
  | .encMap => [word32]
  | .assembly =>
      [word32, word16, word16, word16, word16, word32, .blob, .string, .string]
  | .assemblyProcessor => [word32]
  | .assemblyOS => [word32, word32, word32]
  | .assemblyRef =>
      [word16, word16, word16, word16, word32, .blob, .string, .string, .blob]
  | .assemblyRefProcessor => [word32, .row .assemblyRef]
  | .assemblyRefOS => [word32, word32, word32, .row .assemblyRef]
  | .file => [word32, .string, .blob]
  | .exportedType => [word32, word32, .string, .string, .coded .implementation]
  | .manifestResource => [word32, word32, .string, .coded .implementation]
  | .nestedClass => [.row .typeDef, .row .typeDef]
  | .genericParam => [word16, word16, .coded .typeOrMethodDef, .string]
  | .methodSpec => [.coded .methodDefOrRef, .blob]
  | .genericParamConstraint => [.row .genericParam, .coded .typeDefOrRef]

structure Layout where
  count? : TableId → Option Nat
  largeStrings : Bool
  largeGuids : Bool
  largeBlobs : Bool

namespace Layout

/-- The layout of tables with the given row counts; the last count of a table is kept. -/
def ofRows (counts : List (TableId × Nat)) (largeStrings largeBlobs largeGuids : Bool) : Layout :=
  let lastFirst := counts.reverse
  { count? := fun table => lastFirst.lookup table, largeStrings, largeGuids, largeBlobs }

def rows (layout : Layout) (table : TableId) : Nat := (layout.count? table).getD 0

/-- The bits that a row number of the table needs; one for a table without rows. -/
def bits (layout : Layout) (table : TableId) : Nat :=
  match layout.count? table with
  | none => 0
  | some count => Nat.log2 count + 1

def isLarge (layout : Layout) (table : TableId) : Bool := layout.bits table > 16

def codedBits (layout : Layout) (kind : CodedKind) : Nat :=
  (kind.tables.map layout.bits).foldl max 0 + kind.tagBits

def indexWidth (isLarge : Bool) : Nat := if isLarge then 4 else 2

def width (layout : Layout) : Column → Nat
  | .fixed width => width
  | .string => indexWidth layout.largeStrings
  | .guid => indexWidth layout.largeGuids
  | .blob => indexWidth layout.largeBlobs
  | .row table => indexWidth (layout.isLarge table)
  | .coded kind => indexWidth (layout.codedBits kind > 16)

def rowSize (layout : Layout) (table : TableId) : Nat :=
  total (table.columns.map layout.width)

end Layout

/-! ## Coded indexes -/

namespace CodedIndex

def decode (kind : CodedKind) (value : Nat) : Except Error CodedIndex :=
  let tag := value % kind.tagLimit
  match kind.tables[tag]? with
  | some table => .ok ⟨table, value / kind.tagLimit⟩
  | none => .error (.inconsistent (.codedTag kind tag))

def read (layout : Layout) (kind : CodedKind) (data : Bytes) (offset : Nat) :
    Except Error CodedIndex × Nat :=
  let width := layout.width (.coded kind)
  match data.number offset width with
  | .error error => (.error error, offset)
  | .ok value => (decode kind value, offset + width)

end CodedIndex

end AssemblyGate

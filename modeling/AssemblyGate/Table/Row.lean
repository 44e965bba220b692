import AssemblyGate.Table.Layout

/-!
# Rows

A row is read column by column.  The tables that a scan looks into have a type
for their rows; names and signatures in it are still indexes into the heaps.
-/

namespace AssemblyGate

abbrev Column.Cell : Column → Type
  | .coded _ => CodedIndex
  | _ => Nat

abbrev Record : List Column → Type
  | [] => Unit
  | column :: columns => column.Cell × Record columns

def Column.read (layout : Layout) (data : Bytes) (offset : Nat) :
    (column : Column) → Except Error (column.Cell × Nat)
  | .coded kind =>
      match CodedIndex.read layout kind data offset with
      | (.ok index, next) => .ok (index, next)
      | (.error error, _) => .error error
  | .fixed width => (data.number offset width).map (·, offset + width)
  | .string => numbered .string
  | .guid => numbered .guid
  | .blob => numbered .blob
  | .row table => numbered (.row table)
where
  numbered (column : Column) : Except Error (Nat × Nat) :=
    let width := layout.width column
    (data.number offset width).map (·, offset + width)

def Record.read (layout : Layout) (data : Bytes) :
    (columns : List Column) → (offset : Nat) → Except Error (Record columns × Nat)
  | [], offset => .ok ((), offset)
  | column :: columns, offset => do
      let (cell, offset) ← column.read layout data offset
      let (cells, offset) ← Record.read layout data columns offset
      pure ((cell, cells), offset)

/-! ## Typed rows -/

structure ModuleRow where
  rid : Nat
  generation : Nat
  name : Nat
  mvid : Nat
  deriving DecidableEq, Repr

structure TypeRefRow where
  rid : Nat
  scope : CodedIndex
  name : Nat
  ns : Nat
  deriving DecidableEq, Repr

structure TypeDefRow where
  rid : Nat
  flags : Nat
  name : Nat
  ns : Nat
  base : CodedIndex
  fieldList : Nat
  methodList : Nat
  deriving DecidableEq, Repr

structure FieldRow where
  rid : Nat
  flags : Nat
  name : Nat
  signature : Nat
  deriving DecidableEq, Repr

structure MethodDefRow where
  rid : Nat
  rva : Nat
  implFlags : Nat
  flags : Nat
  name : Nat
  signature : Nat
  paramList : Nat
  deriving DecidableEq, Repr

structure InterfaceImplRow where
  rid : Nat
  owner : Nat
  interface : CodedIndex
  deriving DecidableEq, Repr

structure MemberRefRow where
  rid : Nat
  parent : CodedIndex
  name : Nat
  signature : Nat
  deriving DecidableEq, Repr

structure ClassLayoutRow where
  rid : Nat
  packingSize : Nat
  classSize : Nat
  parent : Nat
  deriving DecidableEq, Repr

structure ModuleRefRow where
  rid : Nat
  name : Nat
  deriving DecidableEq, Repr

structure TypeSpecRow where
  rid : Nat
  signature : Nat
  deriving DecidableEq, Repr

structure AssemblyRow where
  rid : Nat
  hashAlgorithm : Nat
  version : List Nat
  flags : Nat
  publicKey : Nat
  name : Nat
  culture : Nat
  deriving DecidableEq, Repr

structure AssemblyRefRow where
  rid : Nat
  version : List Nat
  flags : Nat
  publicKey : Nat
  name : Nat
  culture : Nat
  hash : Nat
  deriving DecidableEq, Repr

structure NestedClassRow where
  rid : Nat
  nested : Nat
  enclosing : Nat
  deriving DecidableEq, Repr

class Row (ρ : Type) where
  table : TableId
  ofRecord : (rid : Nat) → Record table.columns → ρ

instance : Row ModuleRow where
  table := .module
  ofRecord := fun rid (generation, name, mvid, _, _, ()) => { rid, generation, name, mvid }

instance : Row TypeRefRow where
  table := .typeRef
  ofRecord := fun rid (scope, name, ns, ()) => { rid, scope, name, ns }

instance : Row TypeDefRow where
  table := .typeDef
  ofRecord := fun rid (flags, name, ns, base, fieldList, methodList, ()) =>
    { rid, flags, name, ns, base, fieldList, methodList }

instance : Row FieldRow where
  table := .field
  ofRecord := fun rid (flags, name, signature, ()) => { rid, flags, name, signature }

instance : Row MethodDefRow where
  table := .methodDef
  ofRecord := fun rid (rva, implFlags, flags, name, signature, paramList, ()) =>
    { rid, rva, implFlags, flags, name, signature, paramList }

instance : Row InterfaceImplRow where
  table := .interfaceImpl
  ofRecord := fun rid (owner, interface, ()) => { rid, owner, interface }

instance : Row MemberRefRow where
  table := .memberRef
  ofRecord := fun rid (parent, name, signature, ()) => { rid, parent, name, signature }

instance : Row ClassLayoutRow where
  table := .classLayout
  ofRecord := fun rid (packingSize, classSize, parent, ()) =>
    { rid, packingSize, classSize, parent }

instance : Row ModuleRefRow where
  table := .moduleRef
  ofRecord := fun rid (name, ()) => { rid, name }

instance : Row TypeSpecRow where
  table := .typeSpec
  ofRecord := fun rid (signature, ()) => { rid, signature }

instance : Row AssemblyRow where
  table := .assembly
  ofRecord := fun rid
      (hashAlgorithm, major, minor, build, revision, flags, publicKey, name, culture, ()) =>
    { rid, hashAlgorithm, version := [major, minor, build, revision], flags, publicKey, name,
      culture }

instance : Row AssemblyRefRow where
  table := .assemblyRef
  ofRecord := fun rid
      (major, minor, build, revision, flags, publicKey, name, culture, hash, ()) =>
    { rid, version := [major, minor, build, revision], flags, publicKey, name, culture, hash }

instance : Row NestedClassRow where
  table := .nestedClass
  ofRecord := fun rid (nested, enclosing, ()) => { rid, nested, enclosing }

/-! ## What the flags of a row say -/

namespace TypeDefRow

/-- The bit of explicit layout, whatever the other bit of the layout says. -/
def hasExplicitBit (row : TypeDefRow) : Bool := row.flags.testBit 4

def isExplicitLayout (row : TypeDefRow) : Bool := row.flags / 8 % 4 == 2

def isNested (row : TypeDefRow) : Bool := row.flags % 8 ≥ 2

end TypeDefRow

namespace MethodDefRow

def token (row : MethodDefRow) : Token := TableId.methodDef.token row.rid

def isUnmanagedExport (row : MethodDefRow) : Bool := row.flags.testBit 3

def isStatic (row : MethodDefRow) : Bool := row.flags.testBit 4

def isAbstract (row : MethodDefRow) : Bool := row.flags.testBit 10

def isForwarded (row : MethodDefRow) : Bool := row.flags.testBit 13

/-- Zero for instructions, one for native code, three for code of the runtime. -/
def codeType (row : MethodDefRow) : Nat := row.implFlags % 4

def isUnmanaged (row : MethodDefRow) : Bool := row.implFlags.testBit 2

def isInternalCall (row : MethodDefRow) : Bool := row.implFlags.testBit 12

end MethodDefRow

/-! ## Tables -/

structure Table (ρ : Type) where
  data : Bytes
  start : Nat
  count : Nat
  layout : Layout

namespace Table

variable {ρ : Type} [Row ρ]

def readAt (table : Table ρ) (rid offset : Nat) : Except Error (ρ × Nat) :=
  (Record.read table.layout table.data (Row.table ρ).columns offset).map
    fun (cells, next) => (Row.ofRecord rid cells, next)

def rowSize (table : Table ρ) : Nat := table.layout.rowSize (Row.table ρ)

def size (table : Table ρ) : Nat := table.count * table.rowSize

def get (table : Table ρ) (rid : Nat) : Except Error ρ :=
  if rid = 0 ∨ rid > table.count then
    .error (.inconsistent (.rowOutOfRange rid (Row.table ρ) table.count))
  else
    (table.readAt rid (table.start + (rid - 1) * table.rowSize)).map Prod.fst

/-- Read `remaining` rows one behind the other; the first failure is the last item. -/
def readFrom (table : Table ρ) :
    (remaining rid offset : Nat) → (found : List (Except Error ρ)) → List (Except Error ρ)
  | 0, _, _, found => found.reverse
  | remaining + 1, rid, offset, found =>
      match table.readAt rid offset with
      | .error error => (.error error :: found).reverse
      | .ok (row, next) => readFrom table remaining (rid + 1) next (.ok row :: found)

def rows (table : Table ρ) : List (Except Error ρ) :=
  table.readFrom table.count 1 table.start []

def collect (table : Table ρ) : Except Error (List ρ) :=
  (List.range table.count).mapM fun position => table.get (position + 1)

end Table

end AssemblyGate

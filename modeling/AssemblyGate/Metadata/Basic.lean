import AssemblyGate.Image.Basic
import AssemblyGate.Image.RuntimeHeader
import AssemblyGate.Metadata.Heap
import AssemblyGate.Metadata.Root
import AssemblyGate.Table.Header

/-!
# Metadata

The metadata of one assembly: its streams, and access to heaps, rows, the members
that a type owns, and method bodies.  Metadata can be loaded from an image, or
on its own; without an image there are no method bodies.
-/

namespace AssemblyGate

structure Metadata where
  image : Option (Image × RuntimeHeader)
  data : Bytes
  root : Root
  tableData : Bytes
  tables : TableHeader
  strings : Bytes
  blobs : Option Bytes
  userStrings : Option Bytes
  nesting : List (Nat × Nat)

namespace Metadata

/-! ## Loading -/

def streamBytes? (data : Bytes) (root : Root) (name : String) : Option Bytes :=
  (root.stream? name).map fun header =>
    data.extract header.offset (header.offset + header.size)

def require {α : Type} (cause : Malformation) : Option α → Except Error α
  | some value => .ok value
  | none => .error (.malformed cause)

def load (image : Option (Image × RuntimeHeader)) (data : Bytes) : Except Error Metadata := do
  let root ← Root.read data
  if (root.stream? "#-").isSome then
    throw .notSupported
  let tableData ← require .missingTables (streamBytes? data root "#~")
  let strings ← require .missingStrings (streamBytes? data root "#Strings")
  let blobs := streamBytes? data root "#Blob"
  let userStrings := streamBytes? data root "#US"
  Heap.checkStrings strings
  blobs.forM Heap.checkBlobs
  userStrings.forM Heap.checkUserStrings
  let tables ← TableHeader.read tableData
  let nestedRows ←
    match tables.table? tableData NestedClassRow with
    | some table => table.rows.mapM id
    | none => pure []
  pure {
    image, data, root, tableData, tables, strings, blobs, userStrings
    nesting := nestedRows.map fun row => (row.nested, row.enclosing) }

def ofBytes (data : Bytes) : Except Error Metadata := load none data

def ofImage (data : Bytes) : Except Error Metadata := do
  let image ← Image.load data
  if image.runtimeDirectory.2 < RuntimeHeader.byteSize then
    throw (.malformed (.runtimeDirectorySize image.runtimeDirectory.2))
  let headerOffset ← image.offsetOf image.runtimeDirectory.1
  let header ← RuntimeHeader.read (← data.slice headerOffset RuntimeHeader.byteSize)
  let start ← image.offsetOf header.metadata.1
  load (some (image, header)) (← data.slice start header.metadata.2)

/-! ## Tables and heaps -/

variable (metadata : Metadata)

def hasNativeCode : Bool := metadata.image.any fun (_, header) => header.hasNativeCode

def rowCount (table : TableId) : Nat := metadata.tables.layout.rows table

def typeDefCount : Nat := metadata.rowCount .typeDef

def table? (ρ : Type) [Row ρ] : Option (Table ρ) :=
  metadata.tables.table? metadata.tableData ρ

def row (ρ : Type) [Row ρ] (rid : Nat) : Except Error ρ :=
  match metadata.table? ρ with
  | some table => table.get rid
  | none => .error (.inconsistent (.emptyTable rid (Row.table ρ)))

def string (index : Nat) : Except Error String := Heap.string metadata.strings index

def string? (index : Nat) : Except Error (Option String) := Heap.string? metadata.strings index

def blob (index : Nat) : Except Error Bytes :=
  match metadata.blobs with
  | some heap => Heap.blob heap index
  | none => .error (.malformed .missingBlobs)

/-- Whether a literal may start at an index; there may be no literals at all. -/
def userString? (index : Nat) : Option Bool :=
  metadata.userStrings.map fun heap => Heap.hasUserString heap index

/-! ## Rows that belong together -/

/-- The name of the assembly, or of the module if there is no assembly row. -/
def assemblyName : Except Error String :=
  match metadata.table? AssemblyRow, metadata.table? ModuleRow with
  | some table, _ => do metadata.string (← table.get 1).name
  | none, some table => do metadata.string (← table.get 1).name
  | none, none => .error (.malformed .unnamedAssembly)

/--
The rows of another table that a type owns, as first row and row behind the last: a type
owns the rows from the one it lists up to the one the next type lists.
-/
def ownedRange (rid : Nat) (target : TableId) (list : TypeDefRow → Nat) :
    Except Error (Nat × Nat) := do
  let limit := metadata.rowCount target + 1
  let start := list (← metadata.row TypeDefRow rid)
  let stop ←
    if rid < metadata.typeDefCount then
      (metadata.row TypeDefRow (rid + 1)).map list
    else
      pure limit
  if start = 0 ∨ start > stop ∨ stop > limit then
    throw (.malformed (.ownedRange rid target start stop))
  pure (start, stop)

def fieldRange (rid : Nat) : Except Error (Nat × Nat) :=
  metadata.ownedRange rid .field TypeDefRow.fieldList

def methodRange (rid : Nat) : Except Error (Nat × Nat) :=
  metadata.ownedRange rid .methodDef TypeDefRow.methodList

def methodsOf (rid : Nat) : Except Error (List MethodDefRow) := do
  let (start, stop) ← metadata.methodRange rid
  (List.range (stop - start)).mapM fun position => metadata.row MethodDefRow (start + position)

/-- The type around a nested type; the last pair of the table counts. -/
def enclosing? (rid : Nat) : Option Nat := metadata.nesting.reverse.lookup rid

def implementations : Except Error (List (Nat × CodedIndex)) :=
  match metadata.table? InterfaceImplRow with
  | some table => do
      let rows ← table.rows.mapM id
      pure (rows.map fun row => (row.owner, row.interface))
  | none => pure []

def bodyAt (address : Nat) : Except Error Bytes :=
  match metadata.image with
  | none => .error .notSupported
  | some (image, _) => do
      let offset ← image.offsetOf address
      image.data.slice offset (image.data.size - offset)

end Metadata

end AssemblyGate

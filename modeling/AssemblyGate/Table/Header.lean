import AssemblyGate.Table.Row

/-!
# The table stream

The stream starts with a header: which tables are present, how many rows they
have, and which heaps have wide indexes.  The tables follow in the order of
their numbers, without gaps.
-/

namespace AssemblyGate

structure TableHeader where
  major : Nat
  minor : Nat
  valid : Nat
  sorted : Nat
  layout : Layout
  start : Nat

namespace TableHeader

def fixedSize : Nat := 24

/--
The row counts of the tables whose bit is set among bits `bit` and up, read from
`offset` on, and the offset behind them.  A set bit that numbers no table stops
the reading.
-/
def readCounts (data : Bytes) (valid : Nat) :
    (remaining bit offset : Nat) → Except Error (List (TableId × Nat) × Nat)
  | 0, _, offset => pure ([], offset)
  | remaining + 1, bit, offset =>
      if valid.testBit bit then
        match TableId.ofNumber? bit with
        | none => .error .notSupported
        | some table => do
            let count ← data.number offset 4
            let (others, offset) ← readCounts data valid remaining (bit + 1) (offset + 4)
            pure ((table, count) :: others, offset)
      else
        readCounts data valid remaining (bit + 1) offset

def sizeOf (layout : Layout) (tables : List TableId) : Nat :=
  total (tables.map fun table => layout.rows table * layout.rowSize table)

def offset (header : TableHeader) (table : TableId) : Nat :=
  header.start + sizeOf header.layout (TableId.all.take table.number)

def read (data : Bytes) : Except Error TableHeader := do
  if data.size < fixedSize then
    throw .outOfBounds
  let valid ← data.number 8 8
  if valid = 0 then
    throw (.malformed .noTablesPresent)
  let heapFlags ← data.number 6 1
  let (counts, countsEnd) ← readCounts data valid 64 0 fixedSize
  let start := if heapFlags.testBit 6 then countsEnd + 4 else countsEnd
  if start > data.size then
    throw .outOfBounds
  let layout :=
    Layout.ofRows counts (heapFlags.testBit 0) (heapFlags.testBit 2) (heapFlags.testBit 1)
  if start + sizeOf layout TableId.all > data.size then
    throw .outOfBounds
  let major ← data.number 4 1
  let minor ← data.number 5 1
  let sorted ← data.number 16 8
  pure { major, minor, valid, sorted, layout, start }

def table? (header : TableHeader) (data : Bytes) (ρ : Type) [Row ρ] : Option (Table ρ) :=
  let count := header.layout.rows (Row.table ρ)
  if count = 0 then none
  else some { data, start := header.offset (Row.table ρ), count, layout := header.layout }

end TableHeader

end AssemblyGate

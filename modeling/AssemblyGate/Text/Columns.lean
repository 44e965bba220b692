import AssemblyGate.Text.Blank
import AssemblyGate.Text.Wrap

/-!
# Columns

Rows of cells below a line of headings.  Every column is as wide as its widest cell, up
to a limit, two blanks stand between columns, and no line ends in a blank.  A cell with
several lines, or one that has to be wrapped, makes its row as high as it is.
-/

namespace AssemblyGate.Text

inductive Side where
  | left
  | right
  deriving DecidableEq, Repr

def Side.fill (side : Side) (size : Nat) (text : String) : String :=
  let blanks := String.ofList (List.replicate (size - width text) ' ')
  match side with
  | .left => text ++ blanks
  | .right => blanks ++ text

def trimEnd (text : String) : String :=
  String.ofList (text.toList.reverse.dropWhile isBlank).reverse

def cellLines (cell : String) : List String := pieces '\n' cell

structure Column where
  side : Side
  cells : List String
  deriving Repr

namespace Column

/-- No column is wider than a word of 16 bits can count. -/
def maxWidth : Nat := 0xffff

def width (column : Column) : Nat :=
  min maxWidth (((column.cells.flatMap cellLines).map Text.width).foldl max 0)

/-- The cells set to a width, each as its lines, and a line of blanks of that width. -/
def set (column : Column) (size : Nat) : List (List String) × String :=
  (column.cells.map fun cell =>
    ((cellLines cell).flatMap (wrap size)).map (column.side.fill size),
   column.side.fill size "")

end Column

def rowLines (cells : List (List String × String)) : List String :=
  let height := (cells.map fun (lines, _) => lines.length).foldl max 0
  (List.range height).map fun line =>
    trimEnd ("  ".intercalate (cells.map fun (lines, blank) => lines[line]?.getD blank))

def columnsOf (headings : List (Side × String)) (rows : List (List String)) : List Column :=
  headings.mapIdx fun index (side, heading) =>
    { side, cells := heading :: rows.map fun row => row[index]?.getD "" }

def columnLines (headings : List (Side × String)) (rows : List (List String)) : List String :=
  let columns := (columnsOf headings rows).map fun column => column.set column.width
  (List.range (rows.length + 1)).flatMap fun row =>
    rowLines (columns.map fun (cells, blank) => (cells[row]?.getD [], blank))

end AssemblyGate.Text

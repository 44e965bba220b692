import AssemblyGate.Text.Hex

/-!
# Metadata tokens

A token is a 32-bit word: the high byte numbers a table and the low 24 bits
number a row of it, counted from one.  Row zero is the null token.
-/

namespace AssemblyGate

structure Token where
  value : UInt32
  deriving DecidableEq, Repr

namespace Token

/-- Words past 32 bits keep their low 32 bits. -/
def ofNat (value : Nat) : Token := ⟨UInt32.ofNat value⟩

def rowLimit : Nat := 0x1000000

/-- Row numbers past 24 bits keep their low 24 bits. -/
def ofParts (table row : Nat) : Token :=
  ofNat (table * rowLimit + row % rowLimit)

def table (token : Token) : Nat := token.value.toNat / rowLimit

def row (token : Token) : Nat := token.value.toNat % rowLimit

def isNull (token : Token) : Bool := token.row == 0

def display (token : Token) : String := Text.hexMarked 8 token.value.toNat

def describe (token : Token) : String :=
  s!"Token({token.display}, table: {Text.hexMarked 2 token.table}, row: {token.row})"

def sort (tokens : List Token) : List Token :=
  tokens.mergeSort fun left right => left.value ≤ right.value

end Token

end AssemblyGate

/-!
# Hexadecimal text

Tokens, addresses and opcodes are shown in base sixteen.  The helpers below
give the digits with a least width; a number that needs more digits than that
keeps all of them.
-/

namespace AssemblyGate.Text

def padZeros (width : Nat) (digits : List Char) : List Char :=
  List.replicate (width - digits.length) '0' ++ digits

def hex (width value : Nat) : String :=
  String.ofList (padZeros width (Nat.toDigits 16 value))

def hexUpper (width value : Nat) : String :=
  String.ofList (padZeros width ((Nat.toDigits 16 value).map Char.toUpper))

def hexMarked (width value : Nat) : String :=
  "0x" ++ hex width value

end AssemblyGate.Text

import AssemblyGate.Text.Hex

/-!
# Writing JSON

Every item of a list and every member of a record stands on a line of its own,
indented by two blanks more than what it belongs to.
-/

namespace AssemblyGate.Json

inductive Output where
  | bool (value : Bool)
  | text (value : String)
  | list (items : List Output)
  | record (members : List (String × Output))
  deriving Repr

/-- A character inside a string.  Only quotes, backslashes and controls are escaped. -/
def escapedChar (c : Char) : String :=
  if c = '"' then "\\\""
  else if c = '\\' then "\\\\"
  else if c = '\x08' then "\\b"
  else if c = '\x0c' then "\\f"
  else if c = '\n' then "\\n"
  else if c = '\r' then "\\r"
  else if c = '\t' then "\\t"
  else if c.toNat < 0x20 then "\\u" ++ Text.hex 4 c.toNat
  else c.toString

def quoted (text : String) : String :=
  "\"" ++ String.join (text.toList.map escapedChar) ++ "\""

private def newLine (depth : Nat) : String :=
  "\n" ++ String.ofList (List.replicate (2 * depth) ' ')

private def enclosed (opening closing : String) (depth : Nat) (lines : List String) : String :=
  if lines.isEmpty then
    opening ++ closing
  else
    opening ++ newLine (depth + 1) ++ ("," ++ newLine (depth + 1)).intercalate lines ++
      newLine depth ++ closing

namespace Output

mutual

def writeAt (depth : Nat) : Output → String
  | .bool value => if value then "true" else "false"
  | .text value => quoted value
  | .list items => enclosed "[" "]" depth (writeItems (depth + 1) items)
  | .record members => enclosed "\x7b" "\x7d" depth (writeMembers (depth + 1) members)

def writeItems (depth : Nat) : List Output → List String
  | [] => []
  | item :: items => item.writeAt depth :: writeItems depth items

def writeMembers (depth : Nat) : List (String × Output) → List String
  | [] => []
  | (key, value) :: members =>
      (quoted key ++ ": " ++ value.writeAt depth) :: writeMembers depth members

end

def write (value : Output) : String := value.writeAt 0

end Output

end AssemblyGate.Json

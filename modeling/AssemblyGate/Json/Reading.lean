/-!
# Reading JSON

A strict reader: no comments, no trailing commas, no text behind the value.  The
result keeps the order of the members of an object and keeps repeated keys.  A
string whose escapes leave half of a surrogate pair alone is readable but has
no text.
-/

namespace AssemblyGate

/-- A JSON value.  Numbers are recognised but their value is not kept. -/
inductive JsonValue where
  | null
  | bool (value : Bool)
  | number
  | string (text : Option String)
  | array (items : List JsonValue)
  | object (members : List (Option String × JsonValue))
  deriving Repr

namespace Json

abbrev Reader (α : Type) := List Char → Option (α × List Char)

def isSpace (c : Char) : Bool := c == ' ' || c == '\n' || c == '\t' || c == '\r'

def skipSpace (text : List Char) : List Char := text.dropWhile isSpace

/-! ## Strings -/

def hexValue? (c : Char) : Option Nat :=
  if '0' ≤ c ∧ c ≤ '9' then some (c.toNat - '0'.toNat)
  else if 'a' ≤ c ∧ c ≤ 'f' then some (c.toNat - 'a'.toNat + 10)
  else if 'A' ≤ c ∧ c ≤ 'F' then some (c.toNat - 'A'.toNat + 10)
  else none

def escaped? : Char → Option Char
  | '"' => some '"'
  | '\\' => some '\\'
  | '/' => some '/'
  | 'b' => some '\x08'
  | 'f' => some '\x0c'
  | 'n' => some '\n'
  | 'r' => some '\r'
  | 't' => some '\t'
  | _ => none

/--
The code units of a string behind its opening quote.  A character that is not
escaped counts as one unit even above U+FFFF.
-/
def units : Reader (List Nat)
  | [] => none
  | '"' :: rest => some ([], rest)
  | '\\' :: 'u' :: a :: b :: c :: d :: rest => do
      let a ← hexValue? a
      let b ← hexValue? b
      let c ← hexValue? c
      let d ← hexValue? d
      let (others, rest) ← units rest
      pure ((((a * 16 + b) * 16 + c) * 16 + d) :: others, rest)
  | '\\' :: c :: rest => do
      let c ← escaped? c
      let (others, rest) ← units rest
      pure (c.toNat :: others, rest)
  | c :: rest =>
      if c.toNat < 0x20 then none
      else do
        let (others, rest) ← units rest
        pure (c.toNat :: others, rest)

def isHighSurrogate (unit : Nat) : Bool := 0xd800 ≤ unit && unit ≤ 0xdbff

def isLowSurrogate (unit : Nat) : Bool := 0xdc00 ≤ unit && unit ≤ 0xdfff

/-- The text of code units, unless half of a surrogate pair stands alone. -/
def textOfUnits : List Nat → Option (List Char)
  | [] => some []
  | high :: low :: rest =>
      if isHighSurrogate high then
        if isLowSurrogate low then
          (textOfUnits rest).map
            (Char.ofNat (0x10000 + (high - 0xd800) * 0x400 + (low - 0xdc00)) :: ·)
        else none
      else if isLowSurrogate high then none
      else (textOfUnits (low :: rest)).map (Char.ofNat high :: ·)
  | [unit] => if isHighSurrogate unit || isLowSurrogate unit then none else some [Char.ofNat unit]

def string : Reader (Option String)
  | '"' :: rest => do
      let (units, rest) ← units rest
      pure ((textOfUnits units).map String.ofList, rest)
  | _ => none

/-! ## Numbers -/

def digits (text : List Char) : Option (List Char) :=
  if (text.head?.any Char.isDigit) then some (text.dropWhile Char.isDigit) else none

def integerPart : List Char → Option (List Char)
  | '0' :: rest => if rest.head?.any Char.isDigit then none else some rest
  | text => digits text

def fractionPart : List Char → Option (List Char)
  | '.' :: rest => digits rest
  | text => some text

def exponentPart : List Char → Option (List Char)
  | e :: text =>
      if e = 'e' ∨ e = 'E' then
        match text with
        | '+' :: rest => digits rest
        | '-' :: rest => digits rest
        | rest => digits rest
      else some (e :: text)
  | [] => some []

def number (text : List Char) : Option (List Char) :=
  let unsigned := match text with
    | '-' :: rest => rest
    | rest => rest
  integerPart unsigned >>= fractionPart >>= exponentPart

/-! ## Values -/

def items (value : Reader JsonValue) : (fuel : Nat) → Reader (List JsonValue)
  | 0, _ => none
  | fuel + 1, text => do
      let (first, rest) ← value text
      match skipSpace rest with
      | ',' :: rest => do
          let (others, rest) ← items value fuel rest
          pure (first :: others, rest)
      | ']' :: rest => pure ([first], rest)
      | _ => none

def members (value : Reader JsonValue) : (fuel : Nat) → Reader (List (Option String × JsonValue))
  | 0, _ => none
  | fuel + 1, text => do
      let (key, rest) ← string (skipSpace text)
      match skipSpace rest with
      | ':' :: rest => do
          let (first, rest) ← value rest
          match skipSpace rest with
          | ',' :: rest => do
              let (others, rest) ← members value fuel rest
              pure ((key, first) :: others, rest)
          | '\x7d' :: rest => pure ([(key, first)], rest)
          | _ => none
      | _ => none

/--
A value.  Each value inside another one starts behind at least one character of
it, so the length of the text bounds the nesting.
-/
def valueAt : (fuel : Nat) → Reader JsonValue
  | 0, _ => none
  | fuel + 1, text =>
      match skipSpace text with
      | 'n' :: 'u' :: 'l' :: 'l' :: rest => some (.null, rest)
      | 't' :: 'r' :: 'u' :: 'e' :: rest => some (.bool true, rest)
      | 'f' :: 'a' :: 'l' :: 's' :: 'e' :: rest => some (.bool false, rest)
      | '"' :: rest => (string ('"' :: rest)).map fun (text, rest) => (.string text, rest)
      | '[' :: rest =>
          match skipSpace rest with
          | ']' :: rest => some (.array [], rest)
          | rest => (items (valueAt fuel) fuel rest).map fun (items, rest) => (.array items, rest)
      | '\x7b' :: rest =>
          match skipSpace rest with
          | '\x7d' :: rest => some (.object [], rest)
          | rest =>
              (members (valueAt fuel) fuel rest).map fun (members, rest) => (.object members, rest)
      | rest => (number rest).map fun rest => (.number, rest)

def read? (text : String) : Option JsonValue := do
  let (value, rest) ← valueAt (text.length + 1) text.toList
  if (skipSpace rest).isEmpty then some value else none

end Json

end AssemblyGate

import AssemblyGate.Number
import AssemblyGate.Policy.Basic
import AssemblyGate.Text.Alphanumeric
import AssemblyGate.Text.Blank

/-!
# Declarations

A policy names types, fields and methods by short declarations:

    type   := "ref " type | core suffix*
    core   := "!!" digits | "!" digits | builtin | dotted ("/" ident)* ("<" type ("," type)* ">")?
    suffix := "[]" | "*"
    field  := type blank name
    method := type blank name ("<" ","* ">")? "(" (type ("," type)*)? ")"

Blanks may stand in front of a type, behind it where a list goes on or ends, and
at the end.  A parser takes the characters that are left and gives back those
it did not use; a failure tells what was expected and in front of which
characters.
-/

namespace AssemblyGate.Declaration

structure Stop where
  expected : Expectation
  rest : List Char
  deriving DecidableEq, Repr

abbrev Parser (α : Type) := List Char → Except Stop (α × List Char)

/-! ## Characters and words -/

def isIdentifierChar (c : Char) : Bool :=
  Text.isAlphanumeric c || c == '_' || c == '\x60'

def isMemberChar (c : Char) : Bool :=
  isIdentifierChar c || c == '.' || c == '$'

def skipBlanks (text : List Char) : List Char :=
  text.dropWhile Text.isBlank

def character (expected : Char) : Parser Unit
  | [] => .error ⟨.character expected, []⟩
  | c :: rest => if c = expected then .ok ((), rest) else .error ⟨.character expected, c :: rest⟩

def blanks : Parser Unit
  | [] => .error ⟨.whitespace, []⟩
  | c :: rest =>
      if Text.isBlank c then .ok ((), skipBlanks rest) else .error ⟨.whitespace, c :: rest⟩

def finished (text : List Char) : Except Stop Unit :=
  match skipBlanks text with
  | [] => .ok ()
  | c :: rest => .error ⟨.endOfDeclaration, c :: rest⟩

def memberName : Parser String := fun text =>
  let name := text.takeWhile isMemberChar
  if name.isEmpty then .error ⟨.memberName, text⟩
  else .ok (String.ofList name, text.dropWhile isMemberChar)

def digitsValue (digits : List Char) : Nat :=
  digits.foldl (fun value digit => value * 10 + (digit.toNat - '0'.toNat)) 0

def parameterIndex : Parser Nat := fun text =>
  let digits := text.takeWhile Char.isDigit
  let rest := text.dropWhile Char.isDigit
  if digits.isEmpty ∨ digitsValue digits ≥ wordLimit then .error ⟨.parameterIndex, rest⟩
  else .ok (digitsValue digits, rest)

/--
A run of words with a separator between them: the first word, which is empty if
the text does not start with one, the words after it, and the rest.  A separator
with no word behind it belongs to the rest.
-/
def words (separator : Char) : List Char → List Char × List (List Char) × List Char
  | [] => ([], [], [])
  | c :: text =>
      if isIdentifierChar c then
        let (first, others, rest) := words separator text
        (c :: first, others, rest)
      else if c = separator ∧ text.head?.any isIdentifierChar then
        let (first, others, rest) := words separator text
        ([], first :: others, rest)
      else
        ([], [], c :: text)

/-! ## Types -/

def builtin? (first : String) (others : List String) : Option Primitive :=
  match others with
  | [] => (Primitive.ofKeyword? first).or (Primitive.ofName? first)
  | [name] => if first = "System" then Primitive.ofName? name else none
  | _ => none

def dottedType (first : String) (others : List String) : TypeExpr :=
  match others.getLast? with
  | none => .parsed none first
  | some name => .parsed (some (String.intercalate "." (first :: others.dropLast))) name

def nestedType (outer : TypeExpr) (names : List String) : TypeExpr :=
  names.foldl (fun parent name => .parsedIn parent none name) outer

def suffixes (type : TypeExpr) : List Char → TypeExpr × List Char
  | '[' :: ']' :: rest => suffixes (.szArray type) rest
  | '*' :: rest => suffixes (.pointer type) rest
  | rest => (type, rest)

def typesUntil (type : Parser TypeExpr) (close : Char) : (fuel : Nat) → Parser (List TypeExpr)
  | 0, text => .error ⟨.character close, text⟩
  | fuel + 1, text => do
      let (first, rest) ← type text
      match skipBlanks rest with
      | ',' :: rest =>
          let (others, rest) ← typesUntil type close fuel rest
          pure (first :: others, rest)
      | rest =>
          let ((), rest) ← character close rest
          pure ([first], rest)

def named (type : Parser TypeExpr) (fuel : Nat) : Parser TypeExpr := fun text => do
  let (first, others, rest) := words '.' text
  if first.isEmpty then
    throw ⟨.identifier, text⟩
  let first := String.ofList first
  let others := others.map String.ofList
  let continues := rest.head? = some '/' ∨ rest.head? = some '<'
  match (if continues then none else builtin? first others) with
  | some builtin => pure (.primitive builtin, rest)
  | none =>
      let (_, nested, rest) := words '/' rest
      let outer := nestedType (dottedType first others) (nested.map String.ofList)
      match rest with
      | '/' :: rest => throw ⟨.identifier, rest⟩
      | '<' :: rest =>
          let (arguments, rest) ← typesUntil type '>' fuel rest
          pure (.generic outer arguments, rest)
      | rest => pure (outer, rest)

def core (type : Parser TypeExpr) (fuel : Nat) : Parser TypeExpr
  | '!' :: '!' :: text => do
      let (index, rest) ← parameterIndex text
      pure (.methodParameter index, rest)
  | '!' :: text => do
      let (index, rest) ← parameterIndex text
      pure (.typeParameter index, rest)
  | text => named type fuel text

/--
A type.  Every type that is nested in another one starts behind at least one
character of it, so the length of the text bounds the nesting.
-/
def typeAt : (fuel : Nat) → Parser TypeExpr
  | 0, text => .error ⟨.identifier, text⟩
  | fuel + 1, text =>
      match skipBlanks text with
      | 'r' :: 'e' :: 'f' :: ' ' :: rest => do
          let (element, rest) ← typeAt fuel rest
          pure (.byRef element, rest)
      | rest => do
          let (inner, rest) ← core (typeAt fuel) fuel rest
          pure (suffixes inner rest)

def type : Parser TypeExpr := fun text => typeAt (text.length + 1) text

/-! ## Members -/

def field : Parser FieldRule := fun text => do
  let (type, rest) ← type text
  let ((), rest) ← blanks rest
  let (name, rest) ← memberName rest
  pure (⟨name, type⟩, rest)

def isBlankOrComma (c : Char) : Bool := Text.isBlank c || c == ','

def arity : Parser Nat
  | '<' :: text => do
      let ((), rest) ← character '>' (text.dropWhile isBlankOrComma)
      pure ((text.takeWhile isBlankOrComma).count ',' + 1, rest)
  | text => .ok (0, text)

def parameters : Parser (List TypeExpr) := fun text => do
  let ((), rest) ← character '(' (skipBlanks text)
  match skipBlanks rest with
  | ')' :: rest => pure ([], rest)
  | rest => typesUntil type ')' (rest.length + 1) rest

def method : Parser MethodRule := fun text => do
  let (returnType, rest) ← type text
  let ((), rest) ← blanks rest
  let (name, rest) ← memberName rest
  let (arity, rest) ← arity rest
  let (parameters, rest) ← parameters rest
  pure ({ name, returnType, parameters, arity }, rest)

/-! ## Whole declarations -/

def byteLength (text : List Char) : Nat :=
  total (text.map Char.utf8Size)

def Stop.toError (text : String) (stop : Stop) : Error :=
  .declaration stop.expected (byteLength text.toList - byteLength stop.rest) text

def complete {α : Type} (parser : Parser α) (text : String) : Except Error α :=
  let outcome : Except Stop α := do
    let (value, rest) ← parser text.toList
    finished rest
    pure value
  outcome.mapError (Stop.toError text)

end AssemblyGate.Declaration

namespace AssemblyGate

def parseType (text : String) : Except Error TypeExpr := Declaration.complete Declaration.type text

def parseField (text : String) : Except Error FieldRule :=
  Declaration.complete Declaration.field text

def parseMethod (text : String) : Except Error MethodRule :=
  Declaration.complete Declaration.method text

end AssemblyGate

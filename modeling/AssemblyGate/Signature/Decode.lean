import AssemblyGate.Fallible
import AssemblyGate.Signature.Basic

/-!
# Decoding signatures

The decoder walks a blob from front to back.  Its state is the bytes that are
left and the number of types that are open around the current one; both are
kept when a step fails, because a caller may go on with the same decoder.
Leaves are handed to a resolver as soon as their token is read, so the first
fault in the order of the bytes is the one that is reported.
-/

namespace AssemblyGate.Signature

structure Cursor where
  rest : List UInt8
  depth : Nat
  deriving DecidableEq, Repr

def Cursor.start (blob : List UInt8) : Cursor := ⟨blob, 0⟩

abbrev Decoder (σ : Type) := Fallible (Cursor × σ)

abbrev Resolver (σ η : Type) := Token → Bool → Fallible σ η

def bareHandles : Resolver Unit Handle :=
  fun token isValueType => pure ⟨token, isValueType⟩

namespace Decoder

variable {σ η α : Type}

def read (parse : List UInt8 → Except Error α × List UInt8) : Decoder σ α :=
  fun (cursor, state) =>
    let (result, rest) := parse cursor.rest
    (result, ({ cursor with rest }, state))

def resolving (action : Fallible σ α) : Decoder σ α :=
  fun (cursor, state) =>
    let (result, state) := action state
    (result, (cursor, state))

def byte : Decoder σ UInt8 :=
  read fun
    | [] => (.error .outOfBounds, [])
    | byte :: rest => (.ok byte, rest)

def peek : Decoder σ UInt8 :=
  read fun
    | [] => (.error .outOfBounds, [])
    | byte :: rest => (.ok byte, byte :: rest)

def number : Decoder σ Nat := read compressedNumber

def token : Decoder σ Token := do
  let value ← number
  Fallible.ofExcept (compressedToken value)

def malformed (cause : Malformation) : Decoder σ α := throw (.malformed cause)

def times (item : Decoder σ α) : Nat → Decoder σ (List α)
  | 0 => pure []
  | count + 1 => do
      let first ← item
      let others ← times item count
      pure (first :: others)

def within (step : Decoder σ α) : Decoder σ α :=
  fun (cursor, state) =>
    let (result, (cursor, state)) := step ({ cursor with depth := cursor.depth + 1 }, state)
    (result, ({ cursor with depth := cursor.depth - 1 }, state))

/-- Fail at the nesting limit.  The level that was not entered stays counted. -/
def limitReached : Decoder σ α :=
  fun (cursor, state) =>
    (.error .nestingLimit, ({ cursor with depth := cursor.depth + 1 }, state))

/-! ## The grammar, over a decoder for nested types -/

def arrayShape : Decoder σ ArrayShape := do
  let rank ← number
  let sizeCount ← number
  if sizeCount > rank then
    malformed (.arraySizes sizeCount rank)
  let sizes ← times number sizeCount
  let boundCount ← number
  if boundCount > rank then
    malformed (.arrayLowerBounds boundCount rank)
  let lowerBounds ← times number boundCount
  pure ⟨rank, sizes, lowerBounds⟩

/--
The parameters from position `count - remaining` on, and where the variable part
starts.  `required` is `count` as long as no sentinel was met.
-/
def parameters {τ : Type} (type : Decoder σ τ) (count : Nat) :
    (remaining required : Nat) → Decoder σ (List τ × Nat)
  | 0, required => pure ([], required)
  | remaining + 1, required => do
      let next ← peek
      let required ←
        if next = sentinelByte then
          if required ≠ count then
            malformed .duplicateSentinel
          else do
            let _ ← byte
            pure (count - (remaining + 1))
        else
          pure required
      let first ← type
      let (others, required) ← parameters type count remaining required
      pure (first :: others, required)

def methodSignature {τ : Type} (type : Decoder σ τ) : Decoder σ (MethodSignature τ) := do
  let header : SignatureHeader := ⟨← byte⟩
  if !header.isMethod then
    malformed (.methodHeader header.byte)
  let arity ← if header.isGeneric then number else pure 0
  let count ← number
  let returnType ← type
  let (parameters, required) ← parameters type count count count
  pure { header, returnType, required, arity, parameters }

def fieldSignature {τ : Type} (type : Decoder σ τ) : Decoder σ τ := do
  let header : SignatureHeader := ⟨← byte⟩
  if !header.isField then
    malformed (.fieldHeader header.byte)
  type

def typeBody (resolve : Resolver σ η) (type : Decoder σ (SigType η)) :
    Decoder σ (SigType η) := do
  let lead ← byte
  match Element.ofByte? lead with
  | none => malformed (.elementType lead)
  | some (.primitive builtin) => pure (.primitive builtin)
  | some .pointer => return .pointer (← type)
  | some .byRef => return .byRef (← type)
  | some (.handle isValueType) =>
      let token ← token
      return .handle (← resolving (resolve token isValueType))
  | some .typeParameter => return .typeParameter (← number)
  | some .methodParameter => return .methodParameter (← number)
  | some .array =>
      let element ← type
      let shape ← arrayShape
      return .array element shape
  | some .szArray => return .szArray (← type)
  | some .generic =>
      let next ← peek
      if next ≠ (Element.handle true).byte ∧ next ≠ (Element.handle false).byte then
        malformed (.genericDefinition next)
      let definition ← type
      let count ← number
      if count = 0 then
        malformed .genericWithoutArguments
      let arguments ← times type count
      return .generic definition arguments
  | some .functionPointer =>
      let signature ← methodSignature type
      return .functionPointer signature.header signature.returnType signature.required
        signature.arity signature.parameters
  | some (.modifier required) =>
      let token ← token
      let modifier ← resolving (resolve token false)
      let underlying ← type
      return .modified modifier underlying required
  | some .pinned => return .pinned (← type)

def typeAt (resolve : Resolver σ η) : (levels : Nat) → Decoder σ (SigType η)
  | 0 => limitReached
  | levels + 1 => within (typeBody resolve (typeAt resolve levels))

def withLevels (step : Nat → Decoder σ α) : Decoder σ α :=
  fun (cursor, state) => step (nestingLimit - cursor.depth) (cursor, state)

/-! ## Entry points -/

def type (resolve : Resolver σ η) : Decoder σ (SigType η) :=
  withLevels (typeAt resolve)

def field (resolve : Resolver σ η) : Decoder σ (SigType η) :=
  withLevels fun levels => fieldSignature (typeAt resolve levels)

def method (resolve : Resolver σ η) : Decoder σ (MethodSignature (SigType η)) :=
  withLevels fun levels => methodSignature (typeAt resolve levels)

def onBlob (step : Decoder σ α) (blob : List UInt8) : Fallible σ α :=
  fun state =>
    let (result, (_, state)) := step (Cursor.start blob, state)
    (result, state)

end Decoder

end AssemblyGate.Signature

import Std.Data.HashMap
import AssemblyGate.Metadata.Basic
import AssemblyGate.Signature.Decode
import AssemblyGate.TypeExpr.Spelling

/-!
# Resolving types

Tokens become types: a row of the definitions becomes a defined type with the
types around it, a row of the references becomes a reference with its scope, and
a specification is decoded.  Chains of scopes, of enclosing types and of
specifications are followed up to the nesting limit.  References can be kept in
a cache; it is asked before anything else is checked.
-/

namespace AssemblyGate

/-- The references that were resolved before, unless no cache is kept. -/
abbrev Cache := Option (Std.HashMap Nat TypeReference)

namespace Cache

def disabled : Cache := none

def empty : Cache := some ∅

def find? (cache : Cache) (rid : Nat) : Option TypeReference :=
  cache.bind fun entries => entries[rid]?

def insert (cache : Cache) (rid : Nat) (reference : TypeReference) : Cache :=
  cache.map fun entries => entries.insertIfNew rid reference

def rows (cache : Cache) : List Nat :=
  match cache with
  | none => []
  | some entries => entries.keys.mergeSort fun left right => left ≤ right

end Cache

/-- Resolving reads and fills the cache, also when it fails. -/
abbrev Resolve := Fallible Cache

inductive ScopeLink where
  | top (assembly : String) (ns : Option String) (name : String)
  | inside (outer : Nat) (ns : Option String) (name : String)
  deriving DecidableEq, Repr

namespace Metadata

variable (metadata : Metadata)

def cached (rid : Nat) (find : Resolve TypeReference) : Resolve TypeReference :=
  fun cache =>
    match cache.find? rid with
    | some reference => (.ok reference, cache)
    | none =>
        match find cache with
        | (.ok reference, cache) => (.ok reference, cache.insert rid reference)
        | (.error error, cache) => (.error error, cache)

def scopeLink (rid : Nat) : Except Error ScopeLink := do
  let row ← metadata.row TypeRefRow rid
  let name ← metadata.string row.name
  let ns ← metadata.string? row.ns
  if row.scope.isNil then
    throw (.unmodelled (.forwardedType (qualified ns name)))
  match row.scope.table with
  | .assemblyRef =>
      let assembly ← metadata.row AssemblyRefRow row.scope.row
      pure (.top (← metadata.string assembly.name) ns name)
  | .typeRef => pure (.inside row.scope.row ns name)
  | .moduleRef => throw (.unmodelled (.crossModuleType (qualified ns name)))
  | table => throw (.unmodelled (.scope table (qualified ns name)))

/-- A reference at the end of a chain of rows, with `levels` levels left. -/
def typeReferenceIn : (levels : Nat) → (chain : List Nat) → (rid : Nat) → Resolve TypeReference
  | levels, chain, rid => cached rid <|
      if chain.contains rid then
        throw (.inconsistent (.cyclicTypeRef (Token.ofParts TableId.typeRef.number rid)))
      else
        match levels with
        | 0 => throw .nestingLimit
        | levels + 1 => do
            match ← Fallible.ofExcept (metadata.scopeLink rid) with
            | .top assembly ns name => pure (.top assembly ns name)
            | .inside outer ns name =>
                let parent ← typeReferenceIn levels (rid :: chain) outer
                pure (.nested (.referenced parent) ns name)

def typeReference (rid : Nat) : Resolve TypeReference :=
  metadata.typeReferenceIn nestingLimit [] rid

def typeDefinitionIn : (levels : Nat) → (chain : List Nat) → (rid : Nat) → Except Error TypeExpr
  | levels, chain, rid =>
      if chain.contains rid then
        .error (.inconsistent (.cyclicTypeDef (Token.ofParts TableId.typeDef.number rid)))
      else
        match levels with
        | 0 => .error .nestingLimit
        | levels + 1 => do
            let row ← metadata.row TypeDefRow rid
            match metadata.enclosing? rid with
            | none =>
                let name ← metadata.string row.name
                pure (.defined (← metadata.string? row.ns) name)
            | some enclosing =>
                let outer ← typeDefinitionIn levels (rid :: chain) enclosing
                let name ← metadata.string row.name
                pure (.definedIn outer (← metadata.string? row.ns) name)

def typeDefinition (rid : Nat) : Except Error TypeExpr :=
  metadata.typeDefinitionIn nestingLimit [] rid

def specification (rid : Nat) (leaf : Signature.Resolver Cache TypeExpr) : Resolve TypeExpr := do
  let row ← Fallible.ofExcept (metadata.row TypeSpecRow rid)
  let blob ← Fallible.ofExcept (metadata.blob row.signature)
  let type ← Signature.Decoder.onBlob (Signature.Decoder.type leaf) blob.toList
  pure type.toTypeExpr

def resolveAt : (levels : Nat) → Token → Resolve TypeExpr
  | levels, token =>
      match TableId.ofNumber? token.table with
      | some .typeDef => Fallible.ofExcept (metadata.typeDefinition token.row)
      | some .typeRef => do
          let reference ← metadata.typeReference token.row
          pure (.referenced reference)
      | some .typeSpec =>
          match levels with
          | 0 => throw .nestingLimit
          | levels + 1 => metadata.specification token.row fun token _ => resolveAt levels token
      | _ => throw (.inconsistent (.notAType token))

def resolve (token : Token) : Resolve TypeExpr := metadata.resolveAt nestingLimit token

def typeSpecification (rid : Nat) : Resolve TypeExpr :=
  metadata.specification rid fun token _ => metadata.resolveAt (nestingLimit - 1) token

def leaf : Signature.Resolver Cache TypeExpr := fun token _ => metadata.resolve token

end Metadata

end AssemblyGate

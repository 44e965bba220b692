import AssemblyGate.Policy.Access
import AssemblyGate.Scan.Outcome

/-!
# Inheritance

Deriving from a type of another assembly, or implementing one, needs a permission of
its own.
-/

namespace AssemblyGate

structure InheritedType where
  type : TypeExpr
  base : Option TypeExpr
  interfaces : List TypeExpr
  deriving DecidableEq, Repr

namespace Metadata

variable (metadata : Metadata)

def inheritedFrom (index : CodedIndex) : Resolve (Outcome TypeExpr) :=
  if index.isNil then pure .skipped else (metadata.resolve index.token).modelled

def inheritedType (implementations : List (Nat × CodedIndex)) (rid : Nat) :
    Resolve (InheritedType × List Violation) := do
  let row ← Fallible.ofExcept (metadata.row TypeDefRow rid)
  let base ← metadata.inheritedFrom row.base
  let own := implementations.filter fun (owner, _) => owner == rid
  let interfaces ← own.mapM fun implementation => metadata.inheritedFrom implementation.2
  let type ← Fallible.ofExcept (metadata.typeDefinition rid)
  pure ({ type, base := base.kept?, interfaces := Outcome.keptOf interfaces },
    Outcome.refusedOf (base :: interfaces))

def inheritedTypes : Resolve (List InheritedType × List Violation) := do
  let implementations ← Fallible.ofExcept metadata.implementations
  let found ← (rids metadata.typeDefCount).mapM (metadata.inheritedType implementations)
  pure (found.map Prod.fst, found.flatMap Prod.snd)

end Metadata

namespace TypeExpr

/-- The reference that is derived from directly or as one instantiation. -/
def external? : TypeExpr → Option TypeReference
  | .referenced reference => some reference
  | .generic (.referenced reference) _ => some reference
  | _ => none

end TypeExpr

namespace Policy

variable (policy : Policy)

def mayInherit (base : TypeExpr) : Bool :=
  match base.external? with
  | none => true
  | some reference => (policy.access reference).any TypePolicy.allowsInheritance

def checkInherited (inherited : InheritedType) : List Violation :=
  (inherited.base.toList.filter fun base => !policy.mayInherit base).map .baseType ++
    (inherited.interfaces.filter fun base => !policy.mayInherit base).map .interface

def checkInheritance (types : List InheritedType) : List Violation :=
  types.flatMap policy.checkInherited

end Policy

end AssemblyGate

import AssemblyGate.Signature.Basic

/-!
# Types

One model for the types that an assembly mentions and for the types that a
policy names, so that both can be compared.  A `TypeReference` is a type of
another assembly, and is what access is decided for; a nested one names the
type around it.  `TypeExpr.parsed` and `TypeExpr.parsedIn` are the types that a
policy writes down, which have no assembly.
-/

namespace AssemblyGate

mutual
inductive TypeReference where
  | top (assembly : String) (ns : Option String) (name : String)
  | nested (scope : TypeExpr) (ns : Option String) (name : String)
  deriving Repr

inductive TypeExpr where
  | primitive (builtin : Primitive)
  | defined (ns : Option String) (name : String)
  | definedIn (enclosing : TypeExpr) (ns : Option String) (name : String)
  | referenced (reference : TypeReference)
  | generic (definition : TypeExpr) (arguments : List TypeExpr)
  | modified (underlying modifier : TypeExpr) (required : Bool)
  | array (element : TypeExpr) (rank : Nat)
  | szArray (element : TypeExpr)
  | pointer (element : TypeExpr)
  | byRef (element : TypeExpr)
  | typeParameter (index : Nat)
  | methodParameter (index : Nat)
  | functionPointer (header : SignatureHeader) (returnType : TypeExpr) (required arity : Nat)
      (parameters : List TypeExpr)
  | parsed (ns : Option String) (name : String)
  | parsedIn (parent : TypeExpr) (ns : Option String) (name : String)
  deriving Repr
end

/-! ## Equality -/

mutual
def TypeReference.same : TypeReference → TypeReference → Bool
  | .top assembly ns name, .top assembly' ns' name' =>
      assembly == assembly' && ns == ns' && name == name'
  | .nested scope ns name, .nested scope' ns' name' =>
      scope.same scope' && ns == ns' && name == name'
  | _, _ => false

def TypeExpr.same : TypeExpr → TypeExpr → Bool
  | .primitive builtin, .primitive builtin' => builtin == builtin'
  | .defined ns name, .defined ns' name' => ns == ns' && name == name'
  | .definedIn enclosing ns name, .definedIn enclosing' ns' name' =>
      enclosing.same enclosing' && ns == ns' && name == name'
  | .referenced reference, .referenced reference' => reference.same reference'
  | .generic definition arguments, .generic definition' arguments' =>
      definition.same definition' && TypeExpr.sameList arguments arguments'
  | .modified underlying modifier required, .modified underlying' modifier' required' =>
      underlying.same underlying' && modifier.same modifier' && required == required'
  | .array element rank, .array element' rank' => element.same element' && rank == rank'
  | .szArray element, .szArray element' => element.same element'
  | .pointer element, .pointer element' => element.same element'
  | .byRef element, .byRef element' => element.same element'
  | .typeParameter index, .typeParameter index' => index == index'
  | .methodParameter index, .methodParameter index' => index == index'
  | .functionPointer header returnType required arity parameters,
      .functionPointer header' returnType' required' arity' parameters' =>
      header == header' && returnType.same returnType' && required == required' &&
        arity == arity' && TypeExpr.sameList parameters parameters'
  | .parsed ns name, .parsed ns' name' => ns == ns' && name == name'
  | .parsedIn parent ns name, .parsedIn parent' ns' name' =>
      parent.same parent' && ns == ns' && name == name'
  | _, _ => false

def TypeExpr.sameList : List TypeExpr → List TypeExpr → Bool
  | [], [] => true
  | type :: types, type' :: types' => type.same type' && TypeExpr.sameList types types'
  | _, _ => false
end

mutual
@[simp] theorem TypeReference.same_iff (left right : TypeReference) :
    left.same right = true ↔ left = right := by
  cases left <;> cases right <;>
    simp [TypeReference.same, TypeExpr.same_iff, and_assoc]

@[simp] theorem TypeExpr.same_iff (left right : TypeExpr) :
    left.same right = true ↔ left = right := by
  cases left <;> cases right <;>
    simp [TypeExpr.same, TypeExpr.same_iff, TypeReference.same_iff, TypeExpr.sameList_iff,
      and_assoc]

@[simp] theorem TypeExpr.sameList_iff (left right : List TypeExpr) :
    TypeExpr.sameList left right = true ↔ left = right := by
  cases left <;> cases right <;>
    simp [TypeExpr.sameList, TypeExpr.same_iff, TypeExpr.sameList_iff]
end

instance : DecidableEq TypeReference := fun left right =>
  decidable_of_iff _ (TypeReference.same_iff left right)

instance : DecidableEq TypeExpr := fun left right =>
  decidable_of_iff _ (TypeExpr.same_iff left right)

/-! ## Types from signatures -/

mutual
def SigType.toTypeExpr : SigType TypeExpr → TypeExpr
  | .primitive builtin => .primitive builtin
  | .pointer element => .pointer element.toTypeExpr
  | .byRef element => .byRef element.toTypeExpr
  | .handle leaf => leaf
  | .typeParameter index => .typeParameter index
  | .methodParameter index => .methodParameter index
  | .array element shape => .array element.toTypeExpr shape.rank
  | .szArray element => .szArray element.toTypeExpr
  | .generic definition arguments =>
      .generic definition.toTypeExpr (SigType.toTypeExprs arguments)
  | .functionPointer header returnType required arity parameters =>
      .functionPointer header returnType.toTypeExpr required arity
        (SigType.toTypeExprs parameters)
  | .modified modifier underlying required =>
      .modified underlying.toTypeExpr modifier required
  | .pinned element => element.toTypeExpr

def SigType.toTypeExprs : List (SigType TypeExpr) → List TypeExpr
  | [] => []
  | type :: types => type.toTypeExpr :: SigType.toTypeExprs types
end

@[simp] theorem SigType.toTypeExprs_eq_map (types : List (SigType TypeExpr)) :
    toTypeExprs types = types.map toTypeExpr := by
  induction types with
  | nil => rfl
  | cons type types ih => rw [toTypeExprs, ih, List.map_cons]

end AssemblyGate

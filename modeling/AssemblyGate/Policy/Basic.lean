import AssemblyGate.Body.Defect
import AssemblyGate.TypeExpr.Match

/-!
# Policies

A policy lists what untrusted code may use: whole namespaces, whole assemblies,
and single types with the members that are allowed on them.  It also lists the
kinds of defects in method bodies that are tolerated.
-/

namespace AssemblyGate

inductive InheritMode where
  | default
  | allow
  | block
  deriving DecidableEq, Repr

structure FieldRule where
  name : String
  type : TypeExpr
  deriving DecidableEq, Repr

structure MethodRule where
  name : String
  returnType : TypeExpr
  parameters : List TypeExpr
  arity : Nat
  deriving DecidableEq, Repr

/-- What is allowed on one type.  With `all` set the lists are not consulted. -/
structure TypePolicy where
  all : Bool
  inherit : InheritMode
  fields : List FieldRule
  methods : List MethodRule
  nested : List (String × TypePolicy)
  deriving Repr

namespace TypePolicy

def allowAll : TypePolicy := ⟨true, .default, [], [], []⟩

def nestedPolicy? (policy : TypePolicy) (name : String) : Option TypePolicy :=
  policy.nested.lookup name

def allowsField (policy : TypePolicy) (name : String) (type : TypeExpr) : Bool :=
  policy.fields.any fun rule => rule.name == name && type.agrees rule.type

def allowsMethod (policy : TypePolicy) (name : String) (returnType : TypeExpr)
    (parameters : List TypeExpr) (arity : Nat) : Bool :=
  policy.methods.any fun rule =>
    rule.name == name && returnType.agrees rule.returnType && rule.arity == arity &&
      TypeExpr.agreeAll parameters rule.parameters

def allowsInheritance (policy : TypePolicy) : Bool :=
  match policy.inherit with
  | .block => false
  | .allow => true
  | .default => policy.all

end TypePolicy

structure Policy where
  systemAssembly : String
  namespaces : List String
  assemblies : List String
  toleratedDefects : List DefectKind
  types : List (String × List (String × TypePolicy))
  deriving Repr

namespace Policy

def withAssembly (policy : Policy) (assembly : String) : Policy :=
  if policy.assemblies.contains assembly then policy
  else { policy with assemblies := policy.assemblies ++ [assembly] }

/-- The entry for a type, whatever the namespace and assembly grants say. -/
def typePolicy? (policy : Policy) (ns name : String) : Option TypePolicy :=
  (policy.types.lookup ns).bind fun entries => entries.lookup name

end Policy

end AssemblyGate

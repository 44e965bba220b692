import AssemblyGate.TypeExpr.Basic

/-!
# Matching types against a policy

`TypeExpr.agrees` compares a type of the assembly with a type that a policy
names.  Modifiers are ignored on both sides; a reference agrees with a written
type of the same name, namespace and nesting, whatever its assembly; types of
the assembly itself, irregular arrays and function pointers agree with nothing.
-/

namespace AssemblyGate

def TypeExpr.unmodified : TypeExpr → TypeExpr
  | .modified underlying _ _ => underlying.unmodified
  | type => type

mutual
/-- A reference against a type without modifiers. -/
def TypeReference.agrees : TypeReference → TypeExpr → Bool
  | reference, .referenced other => reference == other
  | .top _ ns name, .parsed ns' name' => ns == ns' && name == name'
  | .nested scope ns name, .parsedIn parent ns' name' =>
      ns == ns' && name == name' && scope.agrees parent
  | _, _ => false

def TypeExpr.agrees : TypeExpr → TypeExpr → Bool
  | .modified underlying _ _, other => underlying.agrees other
  | .referenced reference, other => reference.agrees other.unmodified
  | .primitive builtin, other =>
      match other.unmodified with
      | .primitive builtin' => builtin == builtin'
      | _ => false
  | .parsed ns name, other =>
      match other.unmodified with
      | .parsed ns' name' => ns == ns' && name == name'
      | .referenced (.top _ ns' name') => ns == ns' && name == name'
      | _ => false
  | .parsedIn parent ns name, other =>
      match other.unmodified with
      | .parsedIn parent' ns' name' => ns == ns' && name == name' && parent.agrees parent'
      | .referenced (.nested scope ns' name') => ns == ns' && name == name' && parent.agrees scope
      | _ => false
  | .generic definition arguments, other =>
      match other.unmodified with
      | .generic definition' arguments' =>
          definition.agrees definition' && TypeExpr.agreeAll arguments arguments'
      | _ => false
  | .szArray element, other =>
      match other.unmodified with
      | .szArray element' => element.agrees element'
      | _ => false
  | .pointer element, other =>
      match other.unmodified with
      | .pointer element' => element.agrees element'
      | _ => false
  | .byRef element, other =>
      match other.unmodified with
      | .byRef element' => element.agrees element'
      | _ => false
  | .typeParameter index, other =>
      match other.unmodified with
      | .typeParameter index' => index == index'
      | _ => false
  | .methodParameter index, other =>
      match other.unmodified with
      | .methodParameter index' => index == index'
      | _ => false
  | .defined _ _, _ => false
  | .definedIn _ _ _, _ => false
  | .array _ _, _ => false
  | .functionPointer _ _ _ _ _, _ => false

def TypeExpr.agreeAll : List TypeExpr → List TypeExpr → Bool
  | [], [] => true
  | type :: types, type' :: types' => type.agrees type' && TypeExpr.agreeAll types types'
  | _, _ => false
end

end AssemblyGate

import AssemblyGate.Policy.Basic

/-!
# Access to types

Whether code may use a type of another assembly, and which policy then governs
its members.  A type with a namespace is allowed by a namespace grant, by a
grant of its assembly, or by its entry, in this order.  A type without one is
decided through the type around it, or by a grant of its assembly.
-/

namespace AssemblyGate.Policy

def trustsNamespace (policy : Policy) (ns : String) : Bool :=
  policy.namespaces.any fun start => start.toList.isPrefixOf ns.toList

def trustsAssembly (policy : Policy) (assembly : String) : Bool :=
  policy.assemblies.contains assembly

def nestedAccess (outer : TypePolicy) (name : String) : Option TypePolicy :=
  if outer.all then some .allowAll else outer.nestedPolicy? name

def access (policy : Policy) : TypeReference → Option TypePolicy
  | .top assembly (some ns) name =>
      if policy.trustsNamespace ns then some .allowAll
      else if policy.trustsAssembly assembly then some .allowAll
      else policy.typePolicy? ns name
  | .top assembly none _ =>
      if policy.trustsAssembly assembly then some .allowAll else none
  | .nested _ (some ns) name =>
      if policy.trustsNamespace ns then some .allowAll else policy.typePolicy? ns name
  | .nested (.referenced outer) none name =>
      (policy.access outer).bind fun outer => nestedAccess outer name
  | .nested _ none _ => none

end AssemblyGate.Policy

import AssemblyGate.Policy.Access
import AssemblyGate.Scan.Outcome

/-!
# Types of other assemblies

Every type that an assembly refers to has to be allowed, even if no member of it is
used.
-/

namespace AssemblyGate

namespace Metadata

def typeReferences (metadata : Metadata) : Resolve (List (Outcome TypeReference)) :=
  (rids (metadata.rowCount .typeRef)).mapM fun rid => (metadata.typeReference rid).modelled

end Metadata

namespace Policy

def checkTypes (policy : Policy) (assembly : String) (references : List TypeReference) :
    List Violation :=
  (references.filter fun reference => (policy.access reference).isNone).map
    fun reference => .typeAccess reference assembly

end Policy

end AssemblyGate

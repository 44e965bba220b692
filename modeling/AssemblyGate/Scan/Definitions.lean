import AssemblyGate.Metadata.Resolve
import AssemblyGate.Scan.Outcome

/-!
# Definitions that are refused under every policy

Methods that are implemented outside of managed code, and types that lay out their
own fields, which could make references and numbers share their bytes.
-/

namespace AssemblyGate

namespace MethodDefRow

def hasIllegalImplementation (row : MethodDefRow) : Bool :=
  row.isUnmanaged || (row.codeType != 0 && row.codeType != 3)

def hasIllegalFlags (row : MethodDefRow) : Bool :=
  row.isForwarded || row.isUnmanagedExport

end MethodDefRow

namespace Metadata

variable (metadata : Metadata)

/-- The violations of one method.  Its name is read only if there are some. -/
def unmanagedMethod (type : TypeExpr) (row : MethodDefRow) : Except Error (List Violation) := do
  let implementation ←
    if row.hasIllegalImplementation then do
      pure [Violation.implementationFlags type (← metadata.string row.name)]
    else pure []
  let flags ←
    if row.hasIllegalFlags then do
      pure [Violation.methodFlags type (← metadata.string row.name)]
    else pure []
  pure (implementation ++ flags)

def unmanagedMethodsOf (rid : Nat) : Except Error (List Violation) := do
  let methods ← metadata.methodsOf rid
  if methods.isEmpty then
    pure []
  else
    let type ← metadata.typeDefinition rid
    let found ← methods.mapM (metadata.unmanagedMethod type)
    pure found.flatten

def unmanagedMethods : Except Error (List Violation) := do
  let found ← (rids metadata.typeDefCount).mapM metadata.unmanagedMethodsOf
  pure found.flatten

def explicitLayout (rid : Nat) : Except Error (List Violation) := do
  let row ← metadata.row TypeDefRow rid
  if row.hasExplicitBit then
    let (start, stop) ← metadata.fieldRange rid
    if start < stop then
      pure [.explicitLayout (← metadata.typeDefinition rid)]
    else
      pure []
  else
    pure []

def explicitLayouts : Except Error (List Violation) := do
  let found ← (rids metadata.typeDefCount).mapM metadata.explicitLayout
  pure found.flatten

end Metadata

end AssemblyGate

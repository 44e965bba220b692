import AssemblyGate.Policy.Declaration
import AssemblyGate.Policy.Document

/-!
# Loading a policy

The declarations of a document become rules.  A method that cannot be read is
dropped with a notice; a field that cannot be read fails the whole policy; a
kind of defect that is not known is ignored with a notice.
-/

namespace AssemblyGate.Policy

inductive Notice where
  | droppedMethod (declaration : String) (error : Error)
  | unknownDefect (name : String)
  deriving DecidableEq, Repr

def Notice.message : Notice → String
  | .droppedMethod declaration error =>
      "Parse exception for '" ++ declaration ++ "': " ++ error.message?.getD ""
  | .unknownDefect name => "Ignoring unknown verifier error kind '" ++ name ++ "'"

def methodRules (declarations : List String) : List MethodRule :=
  declarations.filterMap fun declaration => (parseMethod declaration).toOption

def methodNotices (declarations : List String) : List Notice :=
  declarations.filterMap fun declaration =>
    match parseMethod declaration with
    | .ok _ => none
    | .error error => some (.droppedMethod declaration error)

mutual
def TypeEntry.load : TypeEntry → Except Error TypePolicy
  | ⟨all, inherit, methods, fields, nested⟩ => do
      let fields ← fields.mapM parseField
      let nested ← TypeEntry.loadAll nested
      pure { all, inherit, fields, methods := methodRules methods, nested }

def TypeEntry.loadAll : List (String × TypeEntry) → Except Error (List (String × TypePolicy))
  | [] => pure []
  | (name, entry) :: entries => do
      let policy ← entry.load
      let policies ← TypeEntry.loadAll entries
      pure ((name, policy) :: policies)
end

mutual
def TypeEntry.notices : TypeEntry → List Notice
  | ⟨_, _, methods, _, nested⟩ => methodNotices methods ++ TypeEntry.noticesOf nested

def TypeEntry.noticesOf : List (String × TypeEntry) → List Notice
  | [] => []
  | (_, entry) :: entries => entry.notices ++ TypeEntry.noticesOf entries
end

def Document.load (document : Document) : Except Error Policy := do
  let types ← document.types.mapM fun (ns, entries) => do
    pure (ns, ← TypeEntry.loadAll entries)
  pure {
    systemAssembly := document.systemAssembly
    namespaces := document.namespaces.eraseDups
    assemblies := document.assemblies.eraseDups
    toleratedDefects := (document.toleratedDefects.filterMap DefectKind.ofName?).eraseDups
    types }

def Document.notices (document : Document) : List Notice :=
  (document.toleratedDefects.filter fun name => (DefectKind.ofName? name).isNone).map
      .unknownDefect ++
    document.types.flatMap fun (_, entries) => TypeEntry.noticesOf entries

def load (text : String) : Except Error (Policy × List Notice) :=
  match Document.ofText? text with
  | none => .error .unreadableDocument
  | some document => do
      let policy ← document.load
      pure (policy, document.notices)

end AssemblyGate.Policy

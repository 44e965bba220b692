import AssemblyGate.Policy.Access
import AssemblyGate.Scan.Outcome

/-!
# Members of other assemblies

A reference to a field or method is judged by the policy of the type it belongs to:
an instantiation belongs to its definition.  Members of types of the assembly
itself and of irregular arrays need no permission.
-/

namespace AssemblyGate

namespace TypeExpr

def isOwn : TypeExpr → Bool
  | .defined _ _ => true
  | .definedIn _ _ _ => true
  | .generic definition _ => definition.isOwn
  | _ => false

/-- The reference whose policy governs the members of a type, if one does. -/
def governing : TypeExpr → Except Error (Option TypeReference)
  | .referenced reference => .ok (some reference)
  | .generic definition _ => definition.governing
  | .array _ _ => .ok none
  | .defined _ _ => .ok none
  | .definedIn _ _ _ => .ok none
  | other => .error (.inconsistent (.memberParent other.display))

end TypeExpr

namespace Metadata

variable (metadata : Metadata)

def memberParent (row : MemberRefRow) (name : String) : Resolve (Outcome TypeExpr) :=
  match row.parent.table with
  | .typeRef => (metadata.resolve row.parent.token).modelled
  | .typeDef => (metadata.resolve row.parent.token).modelled
  | .typeSpec => do
      match ← (metadata.resolve row.parent.token).modelled with
      | .kept parent => pure (if parent.isOwn then .skipped else .kept parent)
      | outcome => pure outcome
  | .moduleRef => pure (.refused (.moduleMember name))
  | .methodDef => pure (.refused (.varargCall name))
  | table => pure (.refused (.memberParent table name))

/-- The member with a signature, which is a field's or a method's by its first byte. -/
def memberOfSignature (token : Token) (parent : TypeExpr) (name : String) (signature : Bytes) :
    Resolve MemberRef :=
  match signature[0]? with
  | none => throw (.malformed (.emptySignature token))
  | some lead =>
      if (SignatureHeader.mk lead).isField then do
        let type ← Signature.Decoder.onBlob
          (Signature.Decoder.field metadata.leaf) signature.toList
        pure (.field token parent name type.toTypeExpr)
      else do
        let method ← Signature.Decoder.onBlob
          (Signature.Decoder.method metadata.leaf) signature.toList
        pure (.method token parent name method.returnType.toTypeExpr
          (SigType.toTypeExprs method.parameters) method.arity)

def memberReference (rid : Nat) : Resolve (Outcome MemberRef) := do
  let row ← Fallible.ofExcept (metadata.row MemberRefRow rid)
  let name ← Fallible.ofExcept (metadata.string row.name)
  match ← metadata.memberParent row name with
  | .refused violation => pure (.refused violation)
  | .skipped => pure .skipped
  | .kept parent =>
      let signature ← Fallible.ofExcept (metadata.blob row.signature)
      (metadata.memberOfSignature (TableId.memberRef.token rid) parent name signature).modelled

def memberReferences : Resolve (List (Outcome MemberRef)) :=
  (rids (metadata.rowCount .memberRef)).mapM metadata.memberReference

end Metadata

namespace TypePolicy

def allowsMember (policy : TypePolicy) : MemberRef → Bool
  | .field _ _ name type => policy.allowsField name type
  | .method _ _ name returnType parameters arity =>
      policy.allowsMethod name returnType parameters arity

end TypePolicy

namespace Policy

variable (policy : Policy)

def memberViolation : MemberRef → Violation
  | .field token parent name type => .fieldAccess (.field token parent name type)
  | .method token parent name returnType parameters arity =>
      .methodAccess (.method token parent name returnType parameters arity)

def checkMember (member : MemberRef) : Except Error (Option Violation) := do
  match ← member.parent.governing with
  | none => pure none
  | some base =>
      match policy.access base with
      | none => pure (some (.memberTypeAccess base))
      | some type =>
          pure (if type.all || type.allowsMember member then none
            else some (memberViolation member))

def checkMembers (members : List MemberRef) : Except Error (List Violation) := do
  let found ← members.mapM policy.checkMember
  pure (found.filterMap id)

end Policy

end AssemblyGate

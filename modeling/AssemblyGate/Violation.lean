import AssemblyGate.TypeExpr.Spelling

/-!
# Violations

What an assembly does that its policy does not allow, and how a list of them is
reported: sorted by wording, so that the order in which they were found does
not show.
-/

namespace AssemblyGate

inductive MemberRef where
  | field (token : Token) (parent : TypeExpr) (name : String) (type : TypeExpr)
  | method (token : Token) (parent : TypeExpr) (name : String) (returnType : TypeExpr)
      (parameters : List TypeExpr) (arity : Nat)
  deriving DecidableEq, Repr

namespace MemberRef

def token : MemberRef → Token
  | .field token _ _ _ => token
  | .method token _ _ _ _ _ => token

def parent : MemberRef → TypeExpr
  | .field _ parent _ _ => parent
  | .method _ parent _ _ _ _ => parent

def name : MemberRef → String
  | .field _ _ name _ => name
  | .method _ _ name _ _ _ => name

def display : MemberRef → String
  | .field _ parent name type =>
      parent.display ++ "." ++ name ++ " Returns " ++ type.display
  | .method _ parent name returnType parameters arity =>
      parent.display ++ "." ++ name ++ (if arity = 0 then "" else "<" ++ toString arity ++ ">") ++
        "(" ++ commaSeparated (TypeExpr.displays parameters) ++ ") Returns " ++
        returnType.display

end MemberRef

inductive Violation where
  | typeAccess (reference : TypeReference) (assembly : String)
  | memberTypeAccess (reference : TypeReference)
  | fieldAccess (member : MemberRef)
  | methodAccess (member : MemberRef)
  | baseType (base : TypeExpr)
  | interface (base : TypeExpr)
  | unmodelled (cause : Unmodelled)
  | moduleMember (name : String)
  | varargCall (name : String)
  | memberParent (table : TableId) (name : String)
  | implementationFlags (type : TypeExpr) (method : String)
  | methodFlags (type : TypeExpr) (method : String)
  | explicitLayout (type : TypeExpr)
  deriving DecidableEq, Repr

namespace Violation

def message : Violation → String
  | .typeAccess reference assembly =>
      "Access to type not allowed: " ++ reference.display ++ " asmName " ++ assembly
  | .memberTypeAccess reference => "Access to type not allowed: " ++ reference.display
  | .fieldAccess member => "Access to field not allowed: " ++ member.display
  | .methodAccess member => "Access to method not allowed: " ++ member.display
  | .baseType base => "Inheriting of type not allowed: " ++ base.display
  | .interface base => "Implementing of interface not allowed: " ++ base.display
  | .unmodelled cause => cause.message
  | .moduleMember name => "Module global variables and methods are unsupported. Name: " ++ name
  | .varargCall name => "Vararg calls are unsupported. Name: " ++ name
  | .memberParent table name =>
      "Unsupported member ref parent type: " ++ table.name ++ ". Name: " ++ name
  | .implementationFlags type method =>
      "Method has illegal MethodImplAttributes: " ++ type.display ++ "." ++ method
  | .methodFlags type method =>
      "Method has illegal MethodAttributes: " ++ type.display ++ "." ++ method
  | .explicitLayout type =>
      "Explicit layout type " ++ type.display ++ " may not have fields."

end Violation

/-- Messages in the order of their code points. -/
def sortMessages (messages : List String) : List String :=
  messages.mergeSort fun left right => decide (left ≤ right)

def sortedMessages (violations : List Violation) : List String :=
  sortMessages (violations.map Violation.message)

end AssemblyGate

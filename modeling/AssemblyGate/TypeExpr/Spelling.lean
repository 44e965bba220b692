import AssemblyGate.TypeExpr.Basic

/-!
# Spelling of types

A type has two spellings.  `display` shows everything, with the assembly of a
reference in brackets and with modifiers.  `spelling` is what a policy would
write: no assemblies and no modifiers, at any depth.
-/

namespace AssemblyGate

def qualified (ns : Option String) (name : String) : String :=
  match ns with
  | some ns => ns ++ "." ++ name
  | none => name

def commaSeparated (items : List String) : String :=
  String.intercalate ", " items

private def dimensions (rank : Nat) : String :=
  "[" ++ String.ofList (List.replicate (rank - 1) ',') ++ "]"

mutual
def TypeReference.spelling : TypeReference → String
  | .top _ ns name => qualified ns name
  | .nested scope ns name => scope.spelling ++ "/" ++ qualified ns name

def TypeExpr.spelling : TypeExpr → String
  | .primitive builtin => builtin.name
  | .defined ns name => qualified ns name
  | .definedIn enclosing _ name => enclosing.spelling ++ "/" ++ name
  | .referenced reference => reference.spelling
  | .generic definition arguments =>
      definition.spelling ++ "<" ++ commaSeparated (TypeExpr.spellings arguments) ++ ">"
  | .modified underlying _ _ => underlying.spelling
  | .array element rank => element.spelling ++ dimensions rank
  | .szArray element => element.spelling ++ "[]"
  | .pointer element => element.spelling ++ "*"
  | .byRef element => "ref " ++ element.spelling
  | .typeParameter index => "!" ++ toString index
  | .methodParameter index => "!!" ++ toString index
  | .functionPointer _ returnType _ _ parameters =>
      "method " ++ returnType.spelling ++ " *(" ++
        commaSeparated (TypeExpr.spellings parameters) ++ ")"
  | .parsed ns name => qualified ns name
  | .parsedIn parent ns name => parent.spelling ++ "/" ++ qualified ns name

def TypeExpr.spellings : List TypeExpr → List String
  | [] => []
  | type :: types => type.spelling :: TypeExpr.spellings types
end

@[simp] theorem TypeExpr.spellings_eq_map (types : List TypeExpr) :
    spellings types = types.map spelling := by
  induction types with
  | nil => rfl
  | cons type types ih => rw [spellings, ih, List.map_cons]

mutual
def TypeReference.display : TypeReference → String
  | .top assembly ns name => "[" ++ assembly ++ "]" ++ qualified ns name
  | .nested scope ns name => scope.display ++ "/" ++ qualified ns name

def TypeExpr.display : TypeExpr → String
  | .primitive builtin => builtin.name
  | .defined ns name => qualified ns name
  | .definedIn enclosing _ name => enclosing.display ++ "/" ++ name
  | .referenced reference => reference.display
  | .generic definition arguments =>
      definition.display ++ "<" ++ commaSeparated (TypeExpr.displays arguments) ++ ">"
  | .modified underlying modifier required =>
      underlying.display ++ (if required then " modreq(" else " modopt(") ++
        modifier.display ++ ")"
  | .array element rank => element.display ++ dimensions rank
  | .szArray element => element.display ++ "[]"
  | .pointer element => element.display ++ "*"
  | .byRef element => "ref " ++ element.display
  | .typeParameter index => "!" ++ toString index
  | .methodParameter index => "!!" ++ toString index
  | .functionPointer _ returnType _ _ parameters =>
      "method " ++ returnType.display ++ " *(" ++
        commaSeparated (TypeExpr.displays parameters) ++ ")"
  | .parsed ns name => qualified ns name
  | .parsedIn parent _ name => parent.display ++ "/" ++ name

def TypeExpr.displays : List TypeExpr → List String
  | [] => []
  | type :: types => type.display :: TypeExpr.displays types
end

@[simp] theorem TypeExpr.displays_eq_map (types : List TypeExpr) :
    displays types = types.map display := by
  induction types with
  | nil => rfl
  | cons type types ih => rw [displays, ih, List.map_cons]

end AssemblyGate

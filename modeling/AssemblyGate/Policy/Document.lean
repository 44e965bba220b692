import AssemblyGate.Json.Reading
import AssemblyGate.Policy.Basic

/-!
# Policy documents

The JSON form of a policy, before its declarations are read.  The policy and its
type entries are objects with known keys, or arrays of the same fields in
order; an absent field has a default, an unknown key is ignored, and a known
key may stand only once.  Where keys are names, the last of equal keys counts.
At most `openLimit` containers that are looked into may be open at once.
-/

namespace AssemblyGate.Policy

structure TypeEntry where
  all : Bool
  inherit : InheritMode
  methods : List String
  fields : List String
  nested : List (String × TypeEntry)
  deriving Repr

structure Document where
  systemAssembly : String
  namespaces : List String
  assemblies : List String
  toleratedDefects : List String
  types : List (String × List (String × TypeEntry))
  deriving Repr

namespace Document

def openLimit : Nat := 127

/-- A reader of values, given how many more containers may be opened. -/
abbrev Shape (α : Type) := (room : Nat) → JsonValue → Option α

def text : JsonValue → Option String
  | .string text => text
  | _ => none

def flag : JsonValue → Option Bool
  | .bool value => some value
  | _ => none

def texts : Shape (List String)
  | _ + 1, .array items => items.mapM text
  | _, _ => none

def inheritName : String → Option InheritMode
  | "Default" => some .default
  | "Allow" => some .allow
  | "Block" => some .block
  | _ => none

def inherit : Shape InheritMode
  | _, .string text => text.bind inheritName
  | _ + 1, .object [(key, .null)] => key.bind inheritName
  | _, _ => none

def orNull {α : Type} (shape : JsonValue → Option (List α)) : JsonValue → Option (List α)
  | .null => some []
  | value => shape value

def put {α : Type} (entries : List (String × α)) (key : String) (value : α) :
    List (String × α) :=
  if entries.any fun entry => entry.1 == key then
    entries.map fun entry => if entry.1 == key then (key, value) else entry
  else
    entries ++ [(key, value)]

/-- An object from names to values; the last of equal names counts. -/
def table {α : Type} (item : JsonValue → Option α) : JsonValue → Option (List (String × α))
  | .object members => do
      let entries ← members.mapM fun (key, value) => do pure (← key, ← item value)
      pure (entries.foldl (fun entries entry => put entries entry.1 entry.2) [])
  | _ => none

/--
The values of the known fields, in order: from an object by their keys, each at
most once, or from an array by position.
-/
def fieldValues (names : List String) : JsonValue → Option (List (Option JsonValue))
  | .object members => do
      let members ← members.mapM fun (key, value) => do pure (← key, value)
      names.mapM fun name =>
        match members.filter fun member => member.1 == name with
        | [] => some none
        | [(_, value)] => some (some value)
        | _ => none
  | .array items =>
      if items.length ≤ names.length then
        some ((List.range names.length).map fun position => items[position]?)
      else none
  | _ => none

def orElse {α : Type} (shape : JsonValue → Option α) (default : α) :
    Option JsonValue → Option α
  | none => some default
  | some value => shape value

def typeEntryBody (room : Nat) (nested : JsonValue → Option (List (String × TypeEntry)))
    (value : JsonValue) : Option TypeEntry := do
  match ← fieldValues ["All", "Inherit", "Methods", "Fields", "NestedTypes"] value with
  | [all, mode, methods, fields, types] =>
      pure {
        all := ← orElse flag false all
        inherit := ← orElse (inherit room) .default mode
        methods := ← orElse (orNull (texts room)) [] methods
        fields := ← orElse (orNull (texts room)) [] fields
        nested := ← orElse (orNull nested) [] types }
  | _ => none

def typeEntry : Shape TypeEntry
  | 0, _ => none
  | 1, value => typeEntryBody 0 (fun _ => none) value
  | room + 2, value => typeEntryBody (room + 1) (table (typeEntry room)) value

def typeTable : Shape (List (String × List (String × TypeEntry)))
  | room + 2, value => table (table (typeEntry room)) value
  | _, _ => none

def document : Shape Document
  | 0, _ => none
  | room + 1, value => do
      match ← fieldValues ["SystemAssemblyName", "WhitelistedNamespaces",
          "MultiAssemblyOtherReferences", "AllowedVerifierErrors", "Types"] value with
      | [system, namespaces, assemblies, tolerated, entries] =>
          pure {
            systemAssembly := ← orElse text "" system
            namespaces := ← orElse (texts room) [] namespaces
            assemblies := ← orElse (texts room) [] assemblies
            toleratedDefects := ← orElse (texts room) [] tolerated
            types := ← orElse (typeTable room) [] entries }
      | _ => none

def ofText? (text : String) : Option Document := do
  document openLimit (← Json.read? text)

end Document

end AssemblyGate.Policy

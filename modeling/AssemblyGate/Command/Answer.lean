import AssemblyGate.Check
import AssemblyGate.Command.Help
import AssemblyGate.Json.Writing
import AssemblyGate.Policy.Load
import AssemblyGate.Text.Columns

/-!
# Answers of the command line

What each command prints, as text for people or as JSON, and the status it exits
with: 0 if the assembly is safe or its references could be listed, 1 if the assembly
is not safe or the command failed, and 2 if the arguments are wrong.
-/

namespace AssemblyGate.Command

structure Answer where
  status : Nat
  text : String
  deriving DecidableEq, Repr

inductive Failure where
  | policy (file : String) (cause : Option Error)
  | scan (file : String) (cause : Option Error)
  | refs (file : String) (cause : Option Error)
  deriving Repr

def Failure.message (failure : Failure) : String :=
  let (what, file, cause) := match failure with
    | .policy file cause => ("failed to load whitelist", file, cause)
    | .scan file cause => ("failed to scan assembly", file, cause)
    | .refs file cause => ("failed to load assembly", file, cause)
  what ++ ": " ++ file ++
    match cause.bind Error.message? with
    | some message => ": " ++ message
    | none => ""

abbrev Files := String → Option Bytes

private def unlines (lines : List String) : String :=
  String.join (lines.map fun line => line ++ "\n")

private def indented (lines : List String) : List String := lines.map fun line => "  " ++ line

/-! ## Scan -/

def reportLines (file : String) (report : Report) : List String :=
  [report.assembly ++ " (" ++ file ++ "): " ++ if report.isSafe then "SAFE" else "REJECTED"] ++
  (if report.bytecodeValid then []
    else ["  bytecode rejected (native code or invalid IL)"]) ++
  if report.violations.isEmpty then []
  else
    s!"  {report.violations.length} violations:" ::
      indented (Text.columnLines [(.right, "#"), (.left, "Violation")]
        (report.violations.mapIdx fun index violation => [toString (index + 1), violation]))

def reportJson (file : String) (report : Report) : Json.Output :=
  .record [
    ("file", .text file),
    ("safe", .bool report.isSafe),
    ("assembly_name", .text report.assembly),
    ("bytecode_valid", .bool report.bytecodeValid),
    ("violations", .list (report.violations.map .text))]

def loadPolicy (files : Files) (file : String) (trusted : List String) : Except Failure Policy :=
  match (files file).bind fun bytes => Text.decode? bytes.toList with
  | none => .error (.policy file none)
  | some text =>
      match Policy.load text with
      | .error error => .error (.policy file (some error))
      | .ok (policy, _) => .ok (trusted.foldl Policy.withAssembly policy)

def scanFile (files : Files) (file : String) (policy : Policy) (options : CheckOptions) :
    Except Failure Report :=
  match files file with
  | none => .error (.scan file none)
  | some bytes =>
      match Metadata.ofImage bytes with
      | .error error => .error (.scan file (some error))
      | .ok metadata =>
          match ((policy.check options metadata).runOn #[]).1 with
          | .error error => .error (.scan file (some error))
          | .ok report => .ok report

def ScanRequest.answer (files : Files) (json : Bool) (request : ScanRequest) :
    Except Failure Answer := do
  let policy ← loadPolicy files request.policy request.trusted
  let report ← scanFile files request.file policy
    { CheckOptions.default with verify := request.verify }
  pure {
    status := if report.isSafe then 0 else 1
    text :=
      if json then (reportJson request.file report).write ++ "\n"
      else unlines (reportLines request.file report) }

/-! ## References -/

structure Listing where
  assembly : String
  types : List TypeReference
  members : List MemberRef
  unsupported : List String
  deriving Repr

/-- The types and members that an assembly refers to, resolved without a cache. -/
def Listing.ofMetadata (metadata : Metadata) : Except Error Listing := do
  let references : Resolve (List (Outcome TypeReference) × List (Outcome MemberRef)) := do
    let types ← metadata.typeReferences
    let members ← metadata.memberReferences
    pure (types, members)
  let (types, members) ← (references.runOn Cache.disabled).1
  let assembly ← metadata.assemblyName
  pure {
    assembly
    types := Outcome.keptOf types
    members := Outcome.keptOf members
    unsupported := sortedMessages (Outcome.refusedOf types ++ Outcome.refusedOf members) }

def memberKind : MemberRef → String
  | .field .. => "field"
  | .method .. => "method"

namespace Listing

variable (listing : Listing)

def lines : List String :=
  [listing.assembly, "", s!"Type references ({listing.types.length}):"] ++
  indented (Text.columnLines [(.left, "Reference"), (.left, "Whitelist")]
    (listing.types.map fun type => [type.display, type.spelling])) ++
  ["", s!"Member references ({listing.members.length}):"] ++
  indented (Text.columnLines [(.left, "Token"), (.left, "Kind"), (.left, "Reference")]
    (listing.members.map fun member =>
      [member.token.display, memberKind member, member.display])) ++
  if listing.unsupported.isEmpty then []
  else
    ["", s!"Unsupported references ({listing.unsupported.length}):"] ++
      indented listing.unsupported

def json : Json.Output :=
  .record [
    ("assembly", .text listing.assembly),
    ("types", .list (listing.types.map fun type => .record [
      ("reference", .text type.display),
      ("whitelist", .text type.spelling)])),
    ("members", .list (listing.members.map fun member => .record [
      ("token", .text member.token.display),
      ("kind", .text (memberKind member)),
      ("reference", .text member.display)])),
    ("unsupported", .list (listing.unsupported.map .text))]

end Listing

def refsAnswer (files : Files) (json : Bool) (file : String) : Except Failure Answer :=
  match files file with
  | none => .error (.refs file none)
  | some bytes =>
      match Metadata.ofImage bytes >>= Listing.ofMetadata with
      | .error error => .error (.refs file (some error))
      | .ok listing => .ok {
          status := 0
          text := if json then listing.json.write ++ "\n" else unlines listing.lines }

/-! ## Commands -/

def Request.files : Request → List String
  | .scan request => [request.policy, request.file]
  | .refs file => [file]

def Invocation.answer (files : Files) (invocation : Invocation) : Except Failure Answer :=
  match invocation.request with
  | .scan request => request.answer files invocation.json
  | .refs file => refsAnswer files invocation.json file

def Stop.answer : Stop → Answer
  | .usage => ⟨2, ""⟩
  | .help topic => ⟨0, topic.text⟩
  | .version => ⟨0, Command.version⟩

def Failure.answer (_ : Failure) : Answer := ⟨1, ""⟩

def answer (files : Files) (arguments : List String) : Answer :=
  match parse arguments with
  | .error stop => stop.answer
  | .ok invocation =>
      match invocation.answer files with
      | .error failure => failure.answer
      | .ok answer => answer

end AssemblyGate.Command

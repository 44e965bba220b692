import AssemblyGate.Body.Verify
import AssemblyGate.Scan.Definitions
import AssemblyGate.Scan.Inheritance
import AssemblyGate.Scan.Schedule
import AssemblyGate.Scan.Types

/-!
# Checking an assembly

The whole check: an assembly with native code is rejected at once, then its method
bodies are verified, and then everything it refers to and defines is held against
the policy.  Progress and every violation are logged on the way.
-/

namespace AssemblyGate

/-! ## Log -/

/-- A line of the log.  The time that a timed step took is left to whoever shows it. -/
inductive LogEntry where
  | info (message : String)
  | timed (step : String)
  | error (message : String)
  | debug (message : String)
  deriving DecidableEq, Repr

abbrev Logged := Fallible (Array LogEntry)

def log (entry : LogEntry) : Logged Unit := fun entries => (.ok (), entries.push entry)

/-! ## Options and report -/

structure CheckOptions where
  verify : Bool
  useCache : Bool
  deriving DecidableEq, Repr

namespace CheckOptions

def default : CheckOptions := ⟨true, true⟩

def serial : CheckOptions := ⟨true, false⟩

def policyOnly : CheckOptions := ⟨false, true⟩

def cache (options : CheckOptions) : Cache :=
  if options.useCache then Cache.empty else Cache.disabled

end CheckOptions

structure Report where
  assembly : String
  bytecodeValid : Bool
  violations : List String
  deriving DecidableEq, Repr

namespace Report

def isSafe (report : Report) : Bool := report.bytecodeValid && report.violations.isEmpty

def rejected (assembly : String) : Report := ⟨assembly, false, []⟩

end Report

/-! ## Verification of all bodies -/

/-- What finds defects in the methods of a type, and which findings are violations. -/
structure Verifier where
  findings : (typeDef : Nat) → Except Error (List Finding)
  isViolation : Finding → Bool

namespace Verifier

def structural (policy : Policy) (metadata : Metadata) (assembly : String) : Verifier where
  findings :=
    ({ metadata, assembly, systemAssembly := policy.systemAssembly } : VerifyContext).typeFindings
  isViolation := fun finding => !policy.toleratedDefects.contains finding.kind

def logFinding (verifier : Verifier) (assembly : String) (finding : Finding) : Logged Unit :=
  if verifier.isViolation finding then
    log (.error (assembly ++ ": " ++ finding.display))
  else
    log (.debug (assembly ++ ": tolerated " ++ finding.display))

def verifyType (verifier : Verifier) (assembly : String) (rid : Nat) : Logged Bool := do
  let findings ← Fallible.ofExcept (verifier.findings rid)
  findings.forM (verifier.logFinding assembly)
  pure (findings.all fun finding => !verifier.isViolation finding)

def verifyAll (verifier : Verifier) (assembly : String) (typeDefs : Nat) : Logged Bool := do
  log (.info (assembly ++ ": Verifying IL..."))
  let verdicts ← (rids typeDefs).mapM (verifier.verifyType assembly)
  log (.timed (assembly ++ ": Verified IL in"))
  pure (verdicts.all id)

end Verifier

/-! ## The check -/

structure References where
  types : List TypeReference
  members : List MemberRef
  inherited : List InheritedType
  refused : List Violation
  deriving Repr

def Metadata.references (metadata : Metadata) (schedule : Schedule) : Resolve References := do
  let types ← metadata.typeReferences
  let members ← metadata.memberReferencesIn schedule
  let (inherited, refused) ← metadata.inheritedTypes
  pure {
    types := Outcome.keptOf types
    members := Outcome.keptOf (Outcome.inRowOrder members)
    inherited
    refused :=
      Outcome.refusedOf types ++ Outcome.refusedOf (members.map Prod.snd) ++ refused }

def logTotal (count : Nat) : Logged Unit :=
  log (.info (if count = 0 then "No sandbox violations." else s!"Total violations: {count}"))

def endPhase (name : String) (violations : List Violation) : Logged Unit := do
  logTotal violations.length
  log (.timed (name ++ "..."))

namespace Policy

variable (policy : Policy)

def violations (schedule : Schedule) (metadata : Metadata) (assembly : String) (cache : Cache) :
    Logged (List Violation) := do
  let references ← Fallible.ofExcept ((metadata.references schedule).runOn cache).1
  log (.debug (assembly ++
    s!": {references.types.length} type references, {references.members.length} member " ++
    s!"references, {references.inherited.length} type definitions"))
  let found := references.refused
  endPhase "References loaded" found
  let found := found ++ policy.checkTypes assembly references.types
  endPhase "Types" found
  let found := found ++ policy.checkInheritance references.inherited
  endPhase "Inheritance" found
  let unmanaged ← Fallible.ofExcept metadata.unmanagedMethods
  let found := found ++ unmanaged
  endPhase "Unmanaged methods" found
  let layouts ← Fallible.ofExcept metadata.explicitLayouts
  let found := found ++ layouts
  endPhase "Type abuse" found
  let members ← Fallible.ofExcept (policy.checkMembers (schedule.members references.members))
  let found := found ++ members
  endPhase "Member References" found
  pure found

def checkIn (schedule : Schedule) (options : CheckOptions) (metadata : Metadata)
    (verifier : String → Verifier) : Logged Report := do
  let assembly ← Fallible.ofExcept metadata.assemblyName
  if metadata.hasNativeCode then
    log (.error ("Assembly " ++ assembly ++ " contains native code."))
    pure (.rejected assembly)
  else
    let valid ←
      if options.verify then
        (verifier assembly).verifyAll assembly metadata.typeDefCount
      else pure true
    if valid then
      let found ← policy.violations schedule metadata assembly options.cache
      let messages := sortedMessages found
      messages.forM fun message => log (.error ("Sandbox violation: " ++ message))
      logTotal found.length
      log (.timed "Checked assembly in")
      pure ⟨assembly, true, messages⟩
    else
      log (.error ("Assembly " ++ assembly ++ " Has invalid IL code"))
      pure (.rejected assembly)

def checkWith (options : CheckOptions) (metadata : Metadata) (verifier : String → Verifier) :
    Logged Report :=
  policy.checkIn .inOrder options metadata verifier

def check (options : CheckOptions) (metadata : Metadata) : Logged Report :=
  policy.checkWith options metadata (Verifier.structural policy metadata)

end Policy

namespace Metadata

def loadedEntry (metadata : Metadata) : LogEntry :=
  .debug ("Loaded metadata " ++ metadata.root.version ++
    s!" ({metadata.data.size} bytes, {metadata.rowCount .typeDef} TypeDefs, " ++
    s!"{metadata.rowCount .typeRef} TypeRefs, {metadata.rowCount .memberRef} MemberRefs)")

end Metadata

end AssemblyGate

/-!
# Arguments of the command line

`scan` checks an assembly against a policy, `refs` lists what an assembly refers
to.  Options stand before or behind the file, in any order; those that are not
about a command may also stand before it.  The first argument that is wrong, or
that asks for help or for the version, ends the reading.
-/

namespace AssemblyGate.Command

/-! ## Requests -/

structure ScanRequest where
  file : String
  policy : String
  trusted : List String
  verify : Bool
  deriving DecidableEq, Repr

inductive Request where
  | scan (request : ScanRequest)
  | refs (file : String)
  deriving DecidableEq, Repr

structure Invocation where
  json : Bool
  verbose : Bool
  request : Request
  deriving DecidableEq, Repr

inductive Topic where
  | program
  | scan
  | refs
  | help
  deriving DecidableEq, Repr

inductive Stop where
  | usage
  | help (topic : Topic)
  | version
  deriving DecidableEq, Repr

/-! ## Options -/

inductive Flag where
  | json
  | verbose
  | noVerify
  | serial
  | help
  | version
  deriving DecidableEq, Repr

inductive Setting where
  | policy
  | trusted
  deriving DecidableEq, Repr

inductive Switch where
  | flag (flag : Flag)
  | setting (setting : Setting)
  deriving DecidableEq, Repr

structure Level where
  topic : Topic
  names : List (String × Switch)
  letters : List (Char × Switch)

namespace Level

private def sharedNames : List (String × Switch) :=
  [("json", .flag .json), ("verbose", .flag .verbose), ("help", .flag .help)]

private def sharedLetters : List (Char × Switch) :=
  [('v', .flag .verbose), ('h', .flag .help)]

def program : Level where
  topic := .program
  names := ("version", .flag .version) :: sharedNames
  letters := ('V', .flag .version) :: sharedLetters

def scan : Level where
  topic := .scan
  names :=
    [("config", .setting .policy), ("bundle", .setting .trusted),
     ("no-verify", .flag .noVerify), ("serial", .flag .serial)] ++ sharedNames
  letters := ('c', .setting .policy) :: sharedLetters

def refs : Level where
  topic := .refs
  names := sharedNames
  letters := sharedLetters

end Level

/-! ## Words -/

inductive Word where
  | separator
  | long (name : String) (value : Option String)
  | short (letters : List Char)
  | plain (text : String)
  deriving DecidableEq, Repr

namespace Word

private def splitValue (text : List Char) : String × Option String :=
  (String.ofList (text.takeWhile (· != '=')),
    match text.dropWhile (· != '=') with
    | [] => none
    | _ :: value => some (String.ofList value))

def ofArgument (argument : String) : Word :=
  match argument.toList with
  | ['-', '-'] => .separator
  | '-' :: '-' :: text => .long (splitValue text).1 (splitValue text).2
  | '-' :: letter :: letters => .short (letter :: letters)
  | _ => .plain argument

def isPlain : Word → Bool
  | .plain _ => true
  | _ => false

end Word

/-! ## Reading -/

structure Progress where
  flags : List Flag := []
  policy : Option String := none
  trusted : List String := []
  file : Option String := none
  /-- A setting whose value comes next. -/
  pending : Option Setting := none
  /-- Whether nothing is an option any more. -/
  literal : Bool := false
  deriving Repr

namespace Progress

variable (progress : Progress)

def raise (topic : Topic) : Flag → Except Stop Progress
  | .help => .error (.help topic)
  | .version => .error .version
  | flag =>
      if flag ∈ progress.flags then .error .usage
      else .ok { progress with flags := flag :: progress.flags }

/-- A policy is named once, and not by the empty name. -/
def assign (value : String) : Setting → Except Stop Progress
  | .policy =>
      if progress.policy.isSome || value.isEmpty then .error .usage
      else .ok { progress with policy := some value, pending := none }
  | .trusted => .ok { progress with trusted := progress.trusted ++ [value], pending := none }

def addFile (level : Level) (file : String) : Except Stop Progress :=
  if level.topic = .program || progress.file.isSome || file.isEmpty then .error .usage
  else .ok { progress with file := some file }

/-- One letter after another; the text behind a setting's letter is its value. -/
def readLetters (level : Level) : List Char → Progress → Except Stop Progress
  | [], progress => .ok progress
  | letter :: letters, progress =>
      match level.letters.lookup letter with
      | none => .error .usage
      | some (.flag flag) =>
          match progress.raise level.topic flag with
          | .error stop => .error stop
          | .ok progress => readLetters level letters progress
      | some (.setting setting) =>
          match letters with
          | [] => .ok { progress with pending := some setting }
          | '=' :: value => progress.assign (String.ofList value) setting
          | value => progress.assign (String.ofList value) setting

def readLong (level : Level) (name : String) (value : Option String) : Except Stop Progress :=
  match level.names.lookup name, value with
  | some (.flag flag), none => progress.raise level.topic flag
  | some (.setting setting), none => .ok { progress with pending := some setting }
  | some (.setting setting), some value => progress.assign value setting
  | _, _ => .error .usage

def read (level : Level) (argument : String) : Except Stop Progress :=
  if progress.literal then
    progress.addFile level argument
  else
    match progress.pending, Word.ofArgument argument with
    | some setting, .plain value => progress.assign value setting
    | some _, _ => .error .usage
    | none, .separator => .ok { progress with literal := true }
    | none, .plain file => progress.addFile level file
    | none, .long name value => progress.readLong level name value
    | none, .short letters => readLetters level letters progress

end Progress

namespace Level

def readAll (level : Level) (arguments : List String) : Except Stop Progress := do
  let progress ← arguments.foldlM (fun progress => progress.read level) ({} : Progress)
  if progress.pending.isSome then .error .usage else .ok progress

end Level

def helpTopic : List String → Stop
  | [] => .help .program
  | ["scan"] => .help .scan
  | ["refs"] => .help .refs
  | ["help"] => .help .help
  | _ => .usage

private def require {α : Type} : Option α → Except Stop α
  | some value => .ok value
  | none => .error .usage

def readRequest (command : String) (arguments : List String) :
    Except Stop (Progress × Request) :=
  match command with
  | "scan" => do
      let progress ← Level.scan.readAll arguments
      let file ← require progress.file
      let policy ← require progress.policy
      pure (progress,
        .scan ⟨file, policy, progress.trusted, !progress.flags.contains .noVerify⟩)
  | "refs" => do
      let progress ← Level.refs.readAll arguments
      let file ← require progress.file
      pure (progress, .refs file)
  | "help" => .error (helpTopic arguments)
  | _ => .error .usage

def parse (arguments : List String) : Except Stop Invocation := do
  let isOption (argument : String) : Bool := !(Word.ofArgument argument).isPlain
  let outer ← Level.program.readAll (arguments.takeWhile isOption)
  match outer.literal, arguments.dropWhile isOption with
  | false, command :: arguments => do
      let (inner, request) ← readRequest command arguments
      let flags := outer.flags ++ inner.flags
      pure ⟨flags.contains .json, flags.contains .verbose, request⟩
  | _, _ => .error .usage

end AssemblyGate.Command

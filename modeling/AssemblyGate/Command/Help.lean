import AssemblyGate.Command.Arguments

/-!
# Help

The texts that describe the command line.
-/

namespace AssemblyGate.Command

def version : String := "cilguard 0.1.0\n"

private def sharedOptions : List (String × String) :=
  [("    --json", "Emit output as JSON instead of human-readable text"),
   ("-v, --verbose", "Enable verbose (debug-level) logging output"),
   ("-h, --help", "Print help")]

private def entries (items : List (String × String)) : List String :=
  let width := (items.map fun (name, _) => name.length).foldl max 0
  items.map fun (name, description) =>
    "  " ++ name ++ String.ofList (List.replicate (width - name.length) ' ') ++ "  " ++ description

private def scanAbout : String :=
  "Check an assembly against a whitelist. Exits with status 1 if it is not safe to load"

private def refsAbout : String :=
  "List the type and member references of an assembly as the sandbox sees them"

private def helpAbout : String :=
  "Print this message or the help of the given subcommand(s)"

private def fileEntry : String × String := ("<FILE>", "Path to the .NET assembly file")

def Topic.about : Topic → String
  | .program => "Command line front end for the cilguard assembly sandbox"
  | .scan => scanAbout
  | .refs => refsAbout
  | .help => helpAbout

def Topic.usage : Topic → String
  | .program => "[OPTIONS] <COMMAND>"
  | .scan => "scan [OPTIONS] --config <JSON> <FILE>"
  | .refs => "refs [OPTIONS] <FILE>"
  | .help => "help [COMMAND]..."

def Topic.parts : Topic → List (String × List (String × String))
  | .program =>
      [("Commands", [("scan", scanAbout), ("refs", refsAbout), ("help", helpAbout)]),
       ("Options", sharedOptions ++ [("-V, --version", "Print version")])]
  | .scan =>
      [("Arguments", [fileEntry]),
       ("Options",
         [("-c, --config <JSON>", "Path to the JSON whitelist"),
          ("    --json", "Emit output as JSON instead of human-readable text"),
          ("    --bundle <NAME>",
            "Trust every type of this assembly, e.g. other assemblies of the same bundle"),
          ("-v, --verbose", "Enable verbose (debug-level) logging output"),
          ("    --no-verify", "Skip IL verification"),
          ("    --serial", "Check member references on a single thread"),
          ("-h, --help", "Print help")])]
  | .refs => [("Arguments", [fileEntry]), ("Options", sharedOptions)]
  | .help => [("Arguments", [("[COMMAND]...", "Print help for the subcommand(s)")])]

def Topic.text (topic : Topic) : String :=
  let parts := topic.parts.flatMap fun (title, items) => ["", title ++ ":"] ++ entries items
  "\n".intercalate ([topic.about, "", "Usage: cilguard " ++ topic.usage] ++ parts) ++ "\n"

end AssemblyGate.Command

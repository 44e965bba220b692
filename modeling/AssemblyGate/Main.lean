import AssemblyGate.Command.Answer

/-!
# The program

Reads the files that the arguments name and prints the answer.  What went wrong
goes to the standard error output.
-/

open AssemblyGate

def readFile? (name : String) : IO (Option Bytes) := do
  try
    let bytes ← IO.FS.readBinFile name
    pure (some bytes.data)
  catch _ =>
    pure none

def main (arguments : List String) : IO UInt32 := do
  match Command.parse arguments with
  | .error stop =>
      if stop = .usage then
        IO.eprintln "error: wrong arguments, try --help"
      IO.print stop.answer.text
      pure (UInt32.ofNat stop.answer.status)
  | .ok invocation =>
      let files ← invocation.request.files.mapM fun name => do
        pure (name, ← readFile? name)
      match invocation.answer fun name => (files.lookup name).join with
      | .error failure =>
          IO.eprintln ("Error: " ++ failure.message)
          pure (UInt32.ofNat failure.answer.status)
      | .ok answer =>
          IO.print answer.text
          pure (UInt32.ofNat answer.status)

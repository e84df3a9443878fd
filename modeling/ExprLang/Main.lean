import ExprLang.CommandLine

/-!
# The program

The command line over the files and the terminal of the system.
-/

namespace ExprLang.Terminal

/-- Answers line after line until the session is over. -/
partial def converse (verbose : Bool) : IO Unit := do
  IO.print Session.prompt
  (← IO.getStdout).flush
  let line ← (← IO.getStdin).getLine
  let ended := line.isEmpty
  match Session.react nestingLimit verbose (if ended then .interrupt else .line line) with
  | .leave reply => IO.print reply
  | .stay reply verbose =>
    IO.print reply
    converse verbose

/-- The content of a file of the system. -/
def contentOf (path : String) : IO (Except FileFault (List UInt8)) := do
  try
    return .ok (← IO.FS.readBinFile path).toList
  catch fault =>
    match fault with
    | .inappropriateType _ code _ => return .error (if code = 21 then .isFolder else .notFolder)
    | .invalidArgument .. => return .error .tooLong
    | _ => return .error .notFound

/-- Does what the arguments ask for and returns the exit status. -/
def serve (arguments : List String) : IO UInt32 := do
  match CommandLine.parse arguments with
  | .error fault =>
    IO.eprint (CommandLine.refusal fault)
    return 2
  | .ok .help =>
    IO.print CommandLine.helpText
    return 0
  | .ok (.session verbose) =>
    IO.print Session.banner
    converse verbose
    return 0
  | .ok (.run source options) =>
    let content ← contentOf source
    let result := Run.run nestingLimit (fun _ => content) options source
    IO.print result.output
    IO.eprint result.errors
    match result.ending with
    | .status code => return UInt32.ofNat code
    | .failed fault =>
      IO.eprint (CommandLine.failure fault)
      return 2
    | .overflow =>
      IO.eprint Session.overflowNotice
      return 1

end ExprLang.Terminal

/-- The program. -/
def main (arguments : List String) : IO UInt32 :=
  ExprLang.Terminal.serve arguments

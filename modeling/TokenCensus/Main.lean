import TokenCensus.Command.Run

/-!
# The program

Reads the file that the command line names, runs the command, and writes what the two sinks have
taken to the standard output and the standard error.
-/

namespace TokenCensus

/-- Why the system could not read a file.  The numbers tell a directory from a file that is used
as one, and a null character from a name that is too long. -/
def systemFailure : IO.Error → ReadFailure
  | .noFileOrDirectory .. => .notFound
  | .inappropriateType _ 21 _ => .isADirectory
  | .inappropriateType .. => .notADirectory
  | .invalidArgument _ 22 _ => .nullInPath
  | .invalidArgument .. => .nameTooLong
  | error => .other error.toString

/-- The file that the options name, if they name one. -/
def inputFiles (options : Command.Options) : IO Files := do
  match options.input with
  | none => return fun _ => .error .notFound
  | some path =>
    try
      let bytes ← IO.FS.readBinFile path
      return fun _ => .ok bytes.data.toList
    catch error => return fun _ => .error (systemFailure error)

/-- The status that the program exits with when a diagnostic cannot be rendered. -/
def caretTooWideExitCode : UInt32 := 101

end TokenCensus

/-- Runs the program on its arguments, and gives the status to exit with. -/
def main (arguments : List String) : IO UInt32 := do
  match TokenCensus.Command.parse arguments with
  | .error stop =>
    match stop.message? with
    | some message => IO.print message
    | none => IO.eprint "error: the command line cannot be read\n"
    return stop.exitCode.toUInt32
  | .ok options =>
    let files ← TokenCensus.inputFiles options
    match TokenCensus.Command.run options files .unlimited .unlimited with
    | .error _ =>
      IO.eprint "error: the caret would be too far to the right\n"
      return TokenCensus.caretTooWideExitCode
    | .ok outcome =>
      IO.eprint outcome.err.text
      IO.print outcome.out.text
      return outcome.status.exitCode.toUInt32

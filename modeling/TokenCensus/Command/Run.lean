import TokenCensus.Command.Options
import TokenCensus.Diagnostic.Render
import TokenCensus.Output.Sink
import TokenCensus.Report
import TokenCensus.Source.Basic

/-!
# Running a command

A run reads its source, scans it, writes the diagnostics to one sink and then a report to another.
If the diagnostics cannot all be written there is no report.  All diagnostics are rendered before
anything is written, so a run that cannot render one of them writes nothing.
-/

namespace TokenCensus.Command

/-- How a run ended. -/
inductive Status where
  | success
  | failure
deriving DecidableEq, Repr

/-- The status that the program exits with after a run. -/
def Status.exitCode : Status → Nat
  | success => 0
  | failure => 1

/-- What a run leaves behind. -/
structure Outcome where
  status : Status
  out : Sink
  err : Sink
deriving DecidableEq, Repr

/-- Says why there is no source.  That none was chosen is said where the report would be. -/
def refuse (diagnostic : Diagnostic) (out err : Sink) : Outcome :=
  match diagnostic.problem with
  | .noInputSelected => ⟨.failure, (out.write "No file selected. Exiting...\n").2, err⟩
  | _ => ⟨.failure, out, (err.write ("error: " ++ diagnostic.display ++ "\n")).2⟩

/-- The rendered diagnostics of a scan, one behind the other. -/
def renderAll (diagnostics : List Diagnostic) (source : Source) : Except CaretTooWide String := do
  let rendered ← diagnostics.mapM fun diagnostic => diagnostic.render source.text source.name
  return String.join rendered

/-- The report that the options ask for. -/
def reportText (options : Options) (scan : Scan) : String :=
  if options.tokens then Report.tokenLines scan else Report.countLines (TokenTable.ofScan scan)

/-- Whether the options make a failure of what the scan has found. -/
def rejects (options : Options) (scan : Scan) : Bool :=
  options.strict && !scan.isClean

/-- Writes what a scan has found: the diagnostics, then the report. -/
def publish (options : Options) (scan : Scan) (diagnostics : String) (out err : Sink) : Outcome :=
  match err.write diagnostics with
  -- without its diagnostics a report could be taken for one of a clean source
  | (false, err) => ⟨.failure, out, err⟩
  | (true, err) =>
    match out.writeAndFlush (reportText options scan) with
    | (false, out) => ⟨.failure, out, err⟩
    | (true, out) => ⟨if rejects options scan then .failure else .success, out, err⟩

/-- Runs a command. -/
def run (options : Options) (files : Files) (out err : Sink) : Except CaretTooWide Outcome :=
  match Source.provide files options.input options.sample with
  | .error diagnostic => .ok (refuse diagnostic out err)
  | .ok source =>
    let scanned := scan source.text
    (renderAll scanned.diagnostics source).map fun diagnostics =>
      publish options scanned diagnostics out err

end TokenCensus.Command

/-!
# Command lines

A command line is a list of arguments, which are read from left to right.  An argument that
starts with two dashes is the long name of a flag, one that starts with a single dash holds
one-letter names of flags, and any other is the file to read, of which there may be one.  A dash
alone is a file like any other.  Two dashes alone end the flags: everything behind them is a file.

The first argument that is wrong decides what is reported.  Two mistakes are found late.  That a
file has an empty name is noticed only at the next flag or at the end, so that another mistake
between the two goes first; and that a file and the sample were both asked for is noticed at the
very end.

## Key results

- `Argument.ofString_eq_positional_iff`: which arguments are files
- `readArgument_of_escaped`: behind two dashes every argument is a file
-/

namespace TokenCensus.Command

/-- What a run is asked to do. -/
structure Options where
  input : Option String
  sample : Bool
  tokens : Bool
  strict : Bool
  verbose : Bool
deriving DecidableEq, Repr

/-- Why there is nothing to run.  The first two were asked for; the others are mistakes. -/
inductive Stop where
  | help
  | version
  /-- A flag that does not exist, or a second file. -/
  | unknownArgument
  /-- A flag that was given before, or a file together with the sample. -/
  | conflict
  /-- A value for a flag, none of which takes one. -/
  | unexpectedValue
  /-- A file with an empty name. -/
  | emptyInput
deriving DecidableEq, Repr

/-- The status that the program exits with when it stops. -/
def Stop.exitCode : Stop → Nat
  | help | version => 0
  | unknownArgument | conflict | unexpectedValue | emptyInput => 2

/-- The text shown to those who ask for help. -/
def helpText : String :=
  "Token counter for a small C-like language\n" ++
  "\n" ++
  "Usage: clex [OPTIONS] [INPUT]\n" ++
  "\n" ++
  "Arguments:\n" ++
  "  [INPUT]  Source file to analyse\n" ++
  "\n" ++
  "Options:\n" ++
  "      --sample   Analyse the built-in sample program instead of a file\n" ++
  "      --tokens   Print every token with its byte span instead of the count table\n" ++
  "      --strict   Exit with a failure status when the scanner reports diagnostics\n" ++
  "  -v, --verbose  Enable verbose output\n" ++
  "  -h, --help     Print help\n" ++
  "  -V, --version  Print version\n"

/-- The text shown to those who ask for the version. -/
def versionText : String := "clex 0.1.0\n"

/-- What is shown when the program stops, if it was asked for. -/
def Stop.message? : Stop → Option String
  | help => some helpText
  | version => some versionText
  | unknownArgument | conflict | unexpectedValue | emptyInput => none

/-- The flags. -/
inductive Flag where
  | sample
  | tokens
  | strict
  | verbose
  | help
  | version
deriving DecidableEq, Repr

namespace Flag

/-- The flag with a long name.  Names are not abbreviated. -/
def ofLong? : String → Option Flag
  | "sample" => some sample
  | "tokens" => some tokens
  | "strict" => some strict
  | "verbose" => some verbose
  | "help" => some help
  | "version" => some version
  | _ => none

/-- The flag with a one-letter name. -/
def ofLetter? : Char → Option Flag
  | 'v' => some verbose
  | 'h' => some help
  | 'V' => some version
  | _ => none

end Flag

/-- The forms of an argument. -/
inductive Argument where
  /-- Two dashes alone. -/
  | escape
  /-- A long name, and the value behind an equals sign if there is one. -/
  | long (name : String) (value : Option String)
  /-- One-letter names, at least one. -/
  | letters (letters : List Char)
  /-- A file. -/
  | positional (path : String)
deriving DecidableEq, Repr

/-- Splits the name of a flag from the value behind the first equals sign. -/
def splitValue (cs : List Char) : String × Option String :=
  let name := cs.takeWhile (· ≠ '=')
  match cs.dropWhile (· ≠ '=') with
  | [] => (String.ofList name, none)
  | _ :: value => (String.ofList name, some (String.ofList value))

/-- The form of an argument, as long as there may be flags. -/
def Argument.ofString (argument : String) : Argument :=
  match argument.toList with
  | ['-', '-'] => .escape
  | '-' :: '-' :: cs => let (name, value) := splitValue cs; .long name value
  | '-' :: c :: cs => .letters (c :: cs)
  -- a dash alone is left for here, and so is the empty argument
  | _ => .positional argument

/-- What has been read of a command line. -/
structure Progress where
  seen : List Flag
  input : Option String
  escaped : Bool
deriving DecidableEq, Repr

namespace Progress

/-- Nothing has been read. -/
def start : Progress := ⟨[], none, false⟩

/-- Reads a flag that exists.  First the file before it is looked at. -/
def readFlag (progress : Progress) (flag : Flag) : Except Stop Progress :=
  if progress.input = some "" then .error .emptyInput
  else
    match flag with
    | .help => .error .help
    | .version => .error .version
    | flag =>
      -- a letter and a long name can be the same flag
      if flag ∈ progress.seen then .error .conflict
      else .ok { progress with seen := progress.seen ++ [flag] }

/-- Reads a flag given by its long name. -/
def readLong (progress : Progress) (name : String) (value : Option String) :
    Except Stop Progress :=
  match Flag.ofLong? name, value with
  | none, _ => .error .unknownArgument
  -- an empty value is a value
  | some _, some _ => .error .unexpectedValue
  | some flag, none => progress.readFlag flag

/-- Reads a flag given by its letter. -/
def readLetter (progress : Progress) (letter : Char) : Except Stop Progress :=
  match Flag.ofLetter? letter with
  | none => .error .unknownArgument
  | some flag => progress.readFlag flag

/-- Reads a file. -/
def readInput (progress : Progress) (path : String) : Except Stop Progress :=
  match progress.input with
  | some _ => .error .unknownArgument
  | none => .ok { progress with input := some path }

/-- Reads an argument. -/
def readArgument (progress : Progress) (argument : String) : Except Stop Progress :=
  if progress.escaped then progress.readInput argument
  else
    match Argument.ofString argument with
    | .escape => .ok { progress with escaped := true }
    | .long name value => progress.readLong name value
    -- the letters count one by one, up to the first that is wrong
    | .letters letters => letters.foldlM readLetter progress
    | .positional path => progress.readInput path

/-- What the whole command line asks for. -/
def finish (progress : Progress) : Except Stop Options :=
  if progress.input = some "" then .error .emptyInput
  else if progress.input.isSome ∧ .sample ∈ progress.seen then .error .conflict
  else
    .ok {
      input := progress.input
      sample := .sample ∈ progress.seen
      tokens := .tokens ∈ progress.seen
      strict := .strict ∈ progress.seen
      verbose := .verbose ∈ progress.seen }

/-- Behind two dashes every argument is a file. -/
theorem readArgument_of_escaped {progress : Progress} (h : progress.escaped) (argument : String) :
    progress.readArgument argument = progress.readInput argument := by
  rw [readArgument, if_pos h]

end Progress

/-- An argument is a file if it does not start with a dash, or is nothing else. -/
theorem Argument.ofString_eq_positional_iff (argument : String) :
    Argument.ofString argument = .positional argument ↔
      argument.toList.head? ≠ some '-' ∨ argument = "-" := by
  have hdash : argument = "-" ↔ argument.toList = ['-'] := by
    rw [← String.toList_inj]; rfl
  rw [hdash, Argument.ofString]
  split <;> simp_all
  -- what is left has none of the three forms of a flag
  rename_i h
  match hcs : argument.toList with
  | [] => simp
  | [c] => by_cases hc : c = '-' <;> simp [hc]
  | c :: d :: cs =>
    left
    rintro ⟨⟩
    exact h d cs hcs

/-- Reads a command line, without the name of the program. -/
def parse (arguments : List String) : Except Stop Options :=
  (arguments.foldlM Progress.readArgument Progress.start).bind Progress.finish

end TokenCensus.Command

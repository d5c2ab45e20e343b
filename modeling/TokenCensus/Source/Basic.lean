import TokenCensus.Diagnostic.Basic
import TokenCensus.Source.FileTree
import TokenCensus.Text.Utf8

/-!
# Sources

A source is a text with a name.  It is read from a file, or it is the sample that is built in.
-/

namespace TokenCensus

/-- A text to be scanned, and what diagnostics call it. -/
structure Source where
  name : String
  text : String
deriving DecidableEq, Repr

/-- Files by their paths. -/
abbrev Files := String → Except ReadFailure (List UInt8)

namespace Source

/-- The sample program. -/
def sample : Source where
  name := "<sample>"
  text :=
    "int main() \x7b\r\n" ++
    "    int x, a = 2, b = 3, c = 5;\r\n" ++
    "    x = a + b * c;\r\n" ++
    "    printf(\"The value of x is %d\", x);\r\n" ++
    "    return 0;\r\n" ++
    "\x7d"

/-- Where a source comes from. -/
inductive Origin where
  | file (path : String)
  | sample
deriving DecidableEq, Repr

/-- Chooses between a file and the sample.  A file goes before the sample. -/
def select (file : Option String) (sample : Bool) : Except Diagnostic Origin :=
  match file, sample with
  | some path, _ => .ok (.file path)
  | none, true => .ok .sample
  | none, false => .error ⟨.noInputSelected, 0⟩

/-- Reads a source.  Bytes of a file that are no text are replaced, so that the rest can still be
scanned. -/
def Origin.read (files : Files) : Origin → Except Diagnostic Source
  | .sample => .ok Source.sample
  | .file path =>
    match files path with
    | .ok bytes => .ok ⟨path, Text.Utf8.decode bytes⟩
    | .error failure => .error ⟨.fileRead path failure.message, 0⟩

/-- Chooses a source and reads it. -/
def provide (files : Files) (file : Option String) (sample : Bool) : Except Diagnostic Source :=
  (select file sample).bind (Origin.read files)

/-- What a file that can be read comes to. -/
theorem provide_file {files : Files} {path : String} {bytes : List UInt8}
    (h : files path = .ok bytes) (sample : Bool) :
    provide files (some path) sample = .ok ⟨path, Text.Utf8.decode bytes⟩ := by
  show Origin.read files (.file path) = _
  rw [Origin.read, h]

end Source

end TokenCensus

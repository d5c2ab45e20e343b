import TokenCensus.Text.Escape

/-!
# Diagnostics

What can be wrong, and how it is worded.  Three problems are *lexical*: the scanner finds them in
the source and goes on.  The other two keep a source from being read at all.
-/

namespace TokenCensus

/-- A cause of complaint. -/
inductive Problem where
  /-- A character that starts no token. -/
  | unrecognisedCharacter (character : String)
  /-- A block comment that the source ends in. -/
  | unterminatedComment
  /-- A string literal that the source ends in. -/
  | unterminatedLiteral
  /-- There is nothing to read from. -/
  | noInputSelected
  /-- The file `path` cannot be read, for the reason `message`. -/
  | fileRead (path message : String)
deriving DecidableEq, Repr

namespace Problem

/-- Whether the problem lies in the text of the source. -/
def isLexical : Problem → Bool
  | unrecognisedCharacter _ | unterminatedComment | unterminatedLiteral => true
  | noInputSelected | fileRead _ _ => false

/-- The name that heads a rendered diagnostic. -/
def name : Problem → String
  | unrecognisedCharacter _ => "UnrecognisedCharacter"
  | unterminatedComment => "UnterminatedComment"
  | unterminatedLiteral => "UnterminatedLiteral"
  | noInputSelected => "NoInputSelected"
  | fileRead _ _ => "FileRead"

/-- The problem in a few words. -/
def message : Problem → String
  | unrecognisedCharacter character => "unrecognised character: " ++ Text.quoted character
  | unterminatedComment => "unterminated block comment"
  | unterminatedLiteral => "unterminated string literal"
  | noInputSelected => "no file selected"
  | fileRead path message => "error reading file " ++ Text.quoted path ++ ": " ++ message

/-- What a reader should know about the problem, if there is anything to add. -/
def tip? : Problem → Option String
  | unrecognisedCharacter character =>
    some ("`" ++ Text.bare character ++ "` is not part of the language and was skipped")
  | unterminatedComment => some "Block comment is missing its closing `*/`"
  | unterminatedLiteral => some "String literal is missing its closing quote"
  | noInputSelected => none
  | fileRead _ message => some message

end Problem

/-- A problem, and the byte of the source at which it starts. -/
structure Diagnostic where
  problem : Problem
  position : Nat
deriving DecidableEq, Repr

/-- The diagnostic on one line.  Only a lexical problem has a place worth naming. -/
def Diagnostic.display (diagnostic : Diagnostic) : String :=
  if diagnostic.problem.isLexical then
    diagnostic.problem.message ++ " at byte " ++ diagnostic.position.repr
  else
    diagnostic.problem.message

end TokenCensus

import TokenCensus.Diagnostic.Basic
import TokenCensus.Text.WhiteSpace
import TokenCensus.Text.Line

/-!
# Diagnostics shown in their source

A rendered diagnostic names the problem and the source, quotes the line it is in, and points at
the place with a caret:

    Error: UnrecognisedCharacter (`@` is not part of the language and was skipped)
    -> main.c
      |
    3 | int x = @;
      | --------^

The line is quoted without its indentation and without white space at its end, and the caret moves
left with it.  A diagnostic whose position is not in the source has the first two lines only.
-/

namespace TokenCensus

/-- The widest field, in characters, that the caret can be placed in. -/
def caretWidthLimit : Nat := 65535

/-- The caret would need a field of `width` characters, which is over the limit. -/
structure CaretTooWide where
  width : Nat
deriving DecidableEq, Repr

/-- Whether `c` is indentation. -/
def isIndent (c : Char) : Bool := c = ' ' || c = '\t'

/-- The number of characters that `line` is indented by. -/
def indentWidth (line : List Char) : Nat :=
  (line.takeWhile isIndent).length

/-- `line` as it is quoted: without indentation, and without white space at the end. -/
def quotedLine (line : List Char) : List Char :=
  Text.trimEnd (line.dropWhile isIndent)

/-- The width of the field with the caret at its right end, below the quoted line. -/
def caretWidth (place : Text.Place) : Nat :=
  -- a place inside the indentation has its caret below the first character
  place.column - indentWidth place.line.toList + 1

/-- `n` copies of `c`. -/
def repeated (n : Nat) (c : Char) : String :=
  String.ofList (List.replicate n c)

/-- The three lines that quote the source and point at `place`.  The bars stand below each other,
so the margin is as wide as the number. -/
def renderPlace (place : Text.Place) : String :=
  let number := place.number.repr
  let margin := repeated (number.length + 1) ' ' ++ "|"
  margin ++ "\n" ++
    number ++ " | " ++ String.ofList (quotedLine place.line.toList) ++ "\n" ++
    margin ++ " " ++ repeated (caretWidth place - 1) '-' ++ "^\n"

namespace Diagnostic

/-- The first two lines: the problem, with what there is to add, and the name of the source. -/
def renderHeader (diagnostic : Diagnostic) (name : String) : String :=
  let problem :=
    match diagnostic.problem.tip? with
    | none => diagnostic.problem.name
    | some tip => diagnostic.problem.name ++ " (" ++ tip ++ ")"
  "Error: " ++ problem ++ "\n-> " ++ name ++ "\n"

/-- The diagnostic shown in `source`, which is called `name`. -/
def render (diagnostic : Diagnostic) (source name : String) : Except CaretTooWide String :=
  match Text.placeAt? source diagnostic.position with
  | none => .ok (diagnostic.renderHeader name)
  | some place =>
    if caretWidth place ≤ caretWidthLimit then
      .ok (diagnostic.renderHeader name ++ renderPlace place)
    else
      .error ⟨caretWidth place⟩

end Diagnostic

end TokenCensus

import TokenCensus.Text.Unprintable
import TokenCensus.Text.GraphemeExtend

/-!
# Text quoted in messages

A message that quotes a piece of text must show all of it on one line, and show it unambiguously.
Line ends, tabs and the null character are written with a backslash and a letter or digit, the
backslash and quotation marks with a backslash in front, and a character that could not be seen,
or that would change the one before it, by its code point.

Messages quote in two ways.  `quoted` encloses the text in double quotation marks, so only those
are escaped, and every extending character is.  `bare` puts the text between marks of the
message's own: both quotation marks are escaped, and an extending character only where it would
join the message's text, at the front.
-/

namespace TokenCensus.Text

/-- What is written for `c` when it is named by its code point. -/
def codePoint (c : Char) : String :=
  "\\u\x7b" ++ String.ofList (Nat.toDigits 16 c.toNat) ++ "\x7d"

/-- What is written for `c`.  The characters of `marks` get a backslash, and `extending` tells
whether characters that extend the one before them are named by their code points. -/
def escapeChar (marks : List Char) (extending : Bool) (c : Char) : String :=
  match c with
  | '\x00' => "\\0"
  | '\t' => "\\t"
  | '\r' => "\\r"
  | '\n' => "\\n"
  | '\\' => "\\\\"
  | c =>
    if marks.contains c then "\\" ++ String.singleton c
    else if extending && isGraphemeExtend c || isUnprintable c then codePoint c
    else String.singleton c

/-- The text in double quotation marks, escaped. -/
def quoted (text : String) : String :=
  "\"" ++ String.join (text.toList.map (escapeChar ['"'] true)) ++ "\""

/-- The text escaped, without marks around it. -/
def bare (text : String) : String :=
  match text.toList with
  | [] => ""
  | c :: cs =>
    -- behind the first character an extending one changes nothing but the text itself
    escapeChar ['"', '\x27'] true c ++ String.join (cs.map (escapeChar ['"', '\x27'] false))

end TokenCensus.Text

import TokenCensus.Text.Offset

/-!
# Lines of a text

Only a newline ends a line, and it belongs to the line that it ends.  `lines` cuts a text into its
lines, and `placeAt?` finds the line and the column of a byte offset.

## Key results

- `flatten_lines`: cutting loses nothing, as the lines put together are the text
-/

namespace TokenCensus.Text

/-- Puts one character in front of a text that is already cut into lines. -/
def consLine (c : Char) (rest : List (List Char)) : List (List Char) :=
  if c = '\n' then [c] :: rest
  else
    match rest with
    | [] => [[c]]
    | line :: more => (c :: line) :: more

/-- The lines of a text, each with the newline that ends it.  The last line may lack one, and
there is no empty line after a final newline. -/
def lines (cs : List Char) : List (List Char) :=
  cs.foldr consLine []

@[simp] theorem lines_nil : lines [] = [] := rfl

@[simp] theorem lines_cons (c : Char) (cs : List Char) :
    lines (c :: cs) = consLine c (lines cs) := rfl

theorem flatten_consLine (c : Char) (rest : List (List Char)) :
    (consLine c rest).flatten = c :: rest.flatten := by
  unfold consLine
  split
  · rfl
  · cases rest <;> rfl

/-- Cutting a text into lines neither drops nor moves a character. -/
theorem flatten_lines (cs : List Char) : (lines cs).flatten = cs := by
  induction cs with
  | nil => rfl
  | cons c cs ih => rw [lines_cons, flatten_consLine, ih]

/-- Where an offset falls: the number of its line, from 1, the line with its newline, and the
column inside the line, from 0, in characters. -/
structure Place where
  number : Nat
  line : String
  column : Nat
deriving DecidableEq, Repr

/-- The place of the byte `offset`, counted from the start of the first of the lines given, which
has the number `number`. -/
def placeFrom? (number offset : Nat) : List (List Char) → Option Place
  | [] => none
  | line :: rest =>
    if offset < byteLength line then
      -- the offset may still lie inside a character of the line
      (columnAt? line offset).map fun column => ⟨number, String.ofList line, column⟩
    else
      placeFrom? (number + 1) (offset - byteLength line) rest

/-- The place of the byte `offset` of `text`.  There is none for an offset at or beyond the end
of the text, nor for one inside a character. -/
def placeAt? (text : String) (offset : Nat) : Option Place :=
  placeFrom? 1 offset (lines text.toList)

end TokenCensus.Text

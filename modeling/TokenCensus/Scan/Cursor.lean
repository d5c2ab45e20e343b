import TokenCensus.Text.Offset

/-!
# Places to scan from

A cursor stands between two characters of a text.  It knows the text behind it, its byte offset,
and, of the text before it, the last character: no rule of the grammar looks further back.

## Key results

- `advance_ofSplit`: taking characters off the text behind a cursor moves them before it
- `seek_ofSplit`: seeking the offset of a place between characters arrives there
-/

namespace TokenCensus

/-- A place between two characters of a text. -/
structure Cursor where
  before : Option Char
  offset : Nat
  rest : List Char
deriving DecidableEq, Repr

namespace Cursor

/-- The cursor between the two parts of a text. -/
def ofSplit (front rest : List Char) : Cursor :=
  ⟨front.getLast?, Text.byteLength front, rest⟩

/-- The cursor at the start of a text. -/
def start (cs : List Char) : Cursor := ofSplit [] cs

/-- The cursor `n` characters further on. -/
def advance (cursor : Cursor) (n : Nat) : Cursor :=
  let passed := cursor.rest.take n
  ⟨passed.getLast?.or cursor.before, cursor.offset + Text.byteLength passed, cursor.rest.drop n⟩

theorem advance_ofSplit (front rest : List Char) (n : Nat) :
    (ofSplit front rest).advance n = ofSplit (front ++ rest.take n) (rest.drop n) := by
  simp [ofSplit, advance, List.getLast?_append]

/-- Moves on to the first place between characters whose offset is not less than `target`.  The
place sought from has the offset `offset` and the text `rest` behind it. -/
def seekFrom (target : Nat) (before : Option Char) (offset : Nat) : List Char → Cursor
  | [] => ⟨before, offset, []⟩
  | c :: cs =>
    if target ≤ offset then ⟨before, offset, c :: cs⟩
    else seekFrom target (some c) (offset + c.utf8Size) cs

/-- The first place of a text between characters whose offset is not less than `target`, or the
end of the text if there is none. -/
def seek (cs : List Char) (target : Nat) : Cursor :=
  seekFrom target none 0 cs

private theorem seekFrom_byteLength (front : List Char) (rest : List Char) (before : Option Char)
    (offset : Nat) :
    seekFrom (offset + Text.byteLength front) before offset (front ++ rest) =
      ⟨front.getLast?.or before, offset + Text.byteLength front, rest⟩ := by
  induction front generalizing before offset with
  | nil => cases rest <;> simp [seekFrom]
  | cons c front ih =>
    have hpos := c.utf8Size_pos
    have hsum : offset + Text.byteLength (c :: front) =
        offset + c.utf8Size + Text.byteLength front := by
      rw [Text.byteLength_cons]; omega
    -- the target lies behind `c`, so the search passes it
    rw [List.cons_append, seekFrom, if_neg (by rw [hsum]; omega), hsum, ih]
    -- the last character is `c` only if nothing follows it
    cases front <;> simp [List.getLast?_cons]

/-- A place between characters is found by its offset. -/
theorem seek_ofSplit (front rest : List Char) :
    seek (front ++ rest) (Text.byteLength front) = ofSplit front rest := by
  have := seekFrom_byteLength front rest none 0
  simpa [seek, ofSplit] using this

end Cursor

end TokenCensus

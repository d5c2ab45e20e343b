import TokenCensus.Text.Range

/-!
# White space

The white space of Unicode, which is more than the six blanks that separate tokens.  It is what a
quoted line loses at its end.
-/

namespace TokenCensus.Text

/-- The code points of white space, in ascending ranges. -/
def whiteSpaceRanges : List CodeRange :=
  [(0x9, 0xd), (0x20, 0x20), (0x85, 0x85), (0xa0, 0xa0), (0x1680, 0x1680), (0x2000, 0x200a),
   (0x2028, 0x2029), (0x202f, 0x202f), (0x205f, 0x205f), (0x3000, 0x3000)]

/-- Whether `c` is white space. -/
def isWhiteSpace (c : Char) : Bool :=
  inRanges whiteSpaceRanges c

/-- `cs` without the white space at its end. -/
def trimEnd (cs : List Char) : List Char :=
  (cs.reverse.dropWhile isWhiteSpace).reverse

end TokenCensus.Text

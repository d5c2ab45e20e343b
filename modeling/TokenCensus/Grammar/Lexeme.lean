import TokenCensus.Grammar.Spelling

/-!
# Lexemes

For each class of lexeme, a function that gives the length in characters of the lexeme of that
class at the front of a text, and none if the text does not start with one.  Each takes the longest
lexeme of its class that the text starts with, but for the two that end at a closing mark: a block
comment and a literal end at the first one.

Letters, digits and blanks are those of ASCII.  Every other character is outside all classes,
except inside comments and literals.

## Key results

- `closeComment?_pos`, `keyword?_pos`, `operator?_pos`, `mantissa?_pos`, `closeLiteral?_pos`: no
  lexeme is empty
-/

namespace TokenCensus.Grammar

/-- Whether `c` separates tokens: a space, a tab, or one of the four line and page ends. -/
def isBlank (c : Char) : Bool :=
  c = ' ' || c = '\t' || c = '\n' || c = '\r' || c = '\x0b' || c = '\x0c'

/-- Whether a word can start with `c`. -/
def isWordStart (c : Char) : Bool := c.isAlpha || c = '_'

/-- Whether `c` can stand in a word. -/
def isWord (c : Char) : Bool := c.isAlphanum || c = '_'

/-- The number of characters at the front of `cs` that satisfy `p`. -/
def runLength (p : Char → Bool) (cs : List Char) : Nat := (cs.takeWhile p).length

/-- A length, if it is not zero: no lexeme is empty. -/
def nonzero? (n : Nat) : Option Nat := if n = 0 then none else some n

theorem pos_of_nonzero? {n m : Nat} (h : nonzero? n = some m) : 0 < m := by
  unfold nonzero? at h
  split at h
  · simp at h
  · simp only [Option.some.injEq] at h
    omega

namespace Lexeme

/-- Blanks, as many as there are. -/
def whitespace? (cs : List Char) : Option Nat := nonzero? (runLength isBlank cs)

/-- Looks for the end of a block comment.  The length is that of the comment through its closing
mark, of which `seen` characters have been read. -/
def closeComment? (seen : Nat) : List Char → Option Nat
  | [] => none
  -- the star of the opening mark has been read, so that `/*/` does not close itself
  | '*' :: '/' :: _ => some (seen + 2)
  | _ :: cs => closeComment? (seen + 1) cs

/-- A comment up to the end of its line, which it leaves, or between `/*` and the next `*/`. -/
def comment? : List Char → Option Nat
  -- a carriage return does not end the line
  | '/' :: '/' :: cs => some (2 + runLength (· ≠ '\n') cs)
  | '/' :: '*' :: cs => closeComment? 2 cs
  | _ => none

/-- All that follows the start of a block comment. -/
def unterminatedComment? : List Char → Option Nat
  | '/' :: '*' :: cs => some (2 + cs.length)
  | _ => none

/-- A whole word that is reserved.  The character before it must not belong to a word. -/
def keyword? (before : Option Char) (cs : List Char) : Option Nat :=
  -- taking the whole word is what keeps `do` from being found in `double`
  let word := cs.takeWhile isWord
  if before.any isWord then none
  else if word ∈ keywordSpellings then some word.length
  else none

/-- A word: a letter or underscore, then letters, digits and underscores. -/
def identifier? : List Char → Option Nat
  | [] => none
  | c :: cs => if isWordStart c then some (1 + runLength isWord cs) else none

/-- The longest operator that the text starts with. -/
def operator? (cs : List Char) : Option Nat :=
  ((operatorSpellings.filter (·.isPrefixOf cs)).map List.length).max?

/-- The length of an optional sign. -/
def signLength : List Char → Nat
  | [] => 0
  | c :: _ => if c = '+' || c = '-' then 1 else 0

/-- Digits with at most one point, and at least one digit; a point alone is none. -/
def mantissa? (cs : List Char) : Option Nat :=
  let whole := runLength Char.isDigit cs
  match cs.drop whole with
  | '.' :: fraction =>
    -- digits may be missing on one side of the point, not on both
    if whole + runLength Char.isDigit fraction = 0 then none
    else some (whole + 1 + runLength Char.isDigit fraction)
  | _ => nonzero? whole

/-- The length of an exponent: `e` or `E`, an optional sign, and digits.  Without digits there is
no exponent. -/
def exponentLength : List Char → Nat
  | [] => 0
  | c :: cs =>
    let sign := signLength cs
    let digits := runLength Char.isDigit (cs.drop sign)
    if (c = 'e' || c = 'E') && digits ≠ 0 then 1 + sign + digits else 0

/-- A number: an optional sign, a mantissa and an optional exponent. -/
def constant? (cs : List Char) : Option Nat :=
  let sign := signLength cs
  (mantissa? (cs.drop sign)).map fun mantissa =>
    sign + mantissa + exponentLength (cs.drop (sign + mantissa))

/-- Looks for the end of a literal.  A backslash takes the next character with it, whatever it is.
The length is that of the literal through its closing quote, of which `seen` characters have been
read. -/
def closeLiteral? (seen : Nat) : List Char → Option Nat
  | [] => none
  | '"' :: _ => some (seen + 1)
  | '\\' :: _ :: cs => closeLiteral? (seen + 2) cs
  -- a backslash comes here only as the last character, where it takes nothing with it
  | _ :: cs => closeLiteral? (seen + 1) cs

/-- A string literal between double quotes. -/
def literal? : List Char → Option Nat
  | '"' :: cs => closeLiteral? 1 cs
  | _ => none

/-- All that follows an opening quote. -/
def unterminatedLiteral? : List Char → Option Nat
  | '"' :: cs => some (1 + cs.length)
  | _ => none

/-- A punctuator. -/
def punctuator? : List Char → Option Nat
  | [] => none
  | c :: _ => if c ∈ punctuators then some 1 else none

/-- Any character. -/
def anyCharacter? : List Char → Option Nat
  | [] => none
  | _ :: _ => some 1

/-! ## No lexeme is empty -/

theorem closeComment?_pos {seen n : Nat} {cs : List Char} (h : closeComment? seen cs = some n) :
    0 < n := by
  fun_induction closeComment? seen cs with
  | case1 => simp at h
  | case2 => simp at h; omega
  | case3 _ _ _ _ ih => exact ih h

theorem closeLiteral?_pos {seen n : Nat} {cs : List Char} (h : closeLiteral? seen cs = some n) :
    0 < n := by
  fun_induction closeLiteral? seen cs with
  | case1 => simp at h
  | case2 => simp at h; omega
  | case3 _ _ _ ih => exact ih h
  | case4 _ _ _ _ _ ih => exact ih h

theorem mantissa?_pos {cs : List Char} {n : Nat} (h : mantissa? cs = some n) : 0 < n := by
  dsimp only [mantissa?] at h
  split at h
  · split at h
    · simp at h
    · simp only [Option.some.injEq] at h; omega
  · exact pos_of_nonzero? h

theorem pos_of_mem_operatorSpellings : ∀ s ∈ operatorSpellings, 0 < s.length := by
  decide

theorem operator?_pos {cs : List Char} {n : Nat} (h : operator? cs = some n) : 0 < n := by
  obtain ⟨s, hs, rfl⟩ := List.mem_map.1 (List.max?_mem h)
  exact pos_of_mem_operatorSpellings s (List.mem_filter.1 hs).1

theorem nil_not_mem_keywordSpellings : [] ∉ keywordSpellings := by decide

theorem keyword?_pos {before : Option Char} {cs : List Char} {n : Nat}
    (h : keyword? before cs = some n) : 0 < n := by
  dsimp only [keyword?] at h
  split at h
  · simp at h
  · split at h
    · rename_i hmem
      simp only [Option.some.injEq] at h
      subst h
      -- an empty word would be a reserved one
      exact List.length_pos_iff.2 fun hnil => nil_not_mem_keywordSpellings (hnil ▸ hmem)
    · simp at h

end Lexeme

end TokenCensus.Grammar

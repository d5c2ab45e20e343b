import TokenCensus.Diagnostic.Basic
import TokenCensus.Grammar.Lexeme
import TokenCensus.Token.Kind

/-!
# The rules of the grammar

A rule pairs a class of lexemes with what becomes of them: they are emitted as tokens, skipped as
trivia, or reported.  The rules have an order, and of those that fit at a place the first one wins.
The last rule fits wherever there is a character, so something always fits before the end.

## Key results

- `firstRule?_eq_none_iff`: no rule fits exactly at the end of the text
- `firstRule?_pos`: the rule that fits takes at least one character
-/

namespace TokenCensus.Grammar

/-- A lexical mistake that the grammar recognises. -/
inductive Fault where
  | unterminatedComment
  | unterminatedLiteral
  | unrecognised
deriving DecidableEq, Repr

/-- The problem to report for a fault in `lexeme`. -/
def Fault.problem (lexeme : String) : Fault → Problem
  | unterminatedComment => .unterminatedComment
  | unterminatedLiteral => .unterminatedLiteral
  | unrecognised => .unrecognisedCharacter lexeme

/-- What becomes of a lexeme. -/
inductive Action where
  | emit (kind : Kind)
  | skip (kind : Kind)
  | diagnose (fault : Fault)
deriving DecidableEq, Repr

/-- The rules, by the lexemes that they are for. -/
inductive Rule where
  | whitespace
  | comment
  | unterminatedComment
  | keyword
  | identifier
  | operator
  | constant
  | literal
  | unterminatedLiteral
  | punctuator
  | unrecognised
deriving DecidableEq, Repr

namespace Rule

/-- The rules in the order in which they are tried.  What is complete comes before what only lacks
its end, and a reserved word before the identifier that it would also be. -/
def all : List Rule :=
  [whitespace, comment, unterminatedComment, keyword, identifier, operator, constant, literal,
   unterminatedLiteral, punctuator, unrecognised]

/-- The name of the rule. -/
def name : Rule → String
  | whitespace => "whitespace"
  | comment => "comment"
  | unterminatedComment => "unterminated_comment"
  | keyword => "keyword"
  | identifier => "identifier"
  | operator => "operator"
  | constant => "constant"
  | literal => "literal"
  | unterminatedLiteral => "unterminated_literal"
  | punctuator => "punctuator"
  | unrecognised => "unrecognised"

/-- What becomes of the lexemes of the rule. -/
def action : Rule → Action
  | whitespace => .skip .whitespace
  | comment => .skip .comment
  | unterminatedComment => .diagnose .unterminatedComment
  | keyword => .emit .keyword
  | identifier => .emit .identifier
  | operator => .emit .operator
  | constant => .emit .constant
  | literal => .emit .literal
  | unterminatedLiteral => .diagnose .unterminatedLiteral
  | punctuator => .emit .punctuator
  | unrecognised => .diagnose .unrecognised

/-- The length of the lexeme of the rule at the front of `rest`, behind the character `before`. -/
def lexemeLength? (rule : Rule) (before : Option Char) (rest : List Char) : Option Nat :=
  match rule with
  | whitespace => Lexeme.whitespace? rest
  | comment => Lexeme.comment? rest
  | unterminatedComment => Lexeme.unterminatedComment? rest
  | keyword => Lexeme.keyword? before rest
  | identifier => Lexeme.identifier? rest
  | operator => Lexeme.operator? rest
  | constant => Lexeme.constant? rest
  | literal => Lexeme.literal? rest
  | unterminatedLiteral => Lexeme.unterminatedLiteral? rest
  | punctuator => Lexeme.punctuator? rest
  | unrecognised => Lexeme.anyCharacter? rest

/-- A lexeme has at least one character. -/
theorem lexemeLength?_pos {rule : Rule} {before : Option Char} {rest : List Char} {n : Nat}
    (h : rule.lexemeLength? before rest = some n) : 0 < n := by
  cases rule <;> simp only [lexemeLength?] at h
  case whitespace => exact pos_of_nonzero? h
  case comment =>
    unfold Lexeme.comment? at h
    split at h
    · simp only [Option.some.injEq] at h; omega
    · exact Lexeme.closeComment?_pos h
    · simp at h
  case unterminatedComment =>
    unfold Lexeme.unterminatedComment? at h
    split at h <;> simp at h
    omega
  case keyword => exact Lexeme.keyword?_pos h
  case identifier =>
    unfold Lexeme.identifier? at h
    split at h
    · simp at h
    · split at h <;> simp at h
      omega
  case operator => exact Lexeme.operator?_pos h
  case constant =>
    obtain ⟨m, hm, rfl⟩ := Option.map_eq_some_iff.1 h
    have := Lexeme.mantissa?_pos hm
    omega
  case literal =>
    unfold Lexeme.literal? at h
    split at h
    · exact Lexeme.closeLiteral?_pos h
    · simp at h
  case unterminatedLiteral =>
    unfold Lexeme.unterminatedLiteral? at h
    split at h <;> simp at h
    omega
  case punctuator =>
    unfold Lexeme.punctuator? at h
    split at h
    · simp at h
    · split at h <;> simp at h
      omega
  case unrecognised =>
    unfold Lexeme.anyCharacter? at h
    split at h <;> simp at h
    omega

/-- Nothing fits at the end of a text. -/
theorem lexemeLength?_nil (rule : Rule) (before : Option Char) :
    rule.lexemeLength? before [] = none := by
  cases rule
  case keyword =>
    dsimp only [lexemeLength?, Lexeme.keyword?]
    split
    · rfl
    · exact if_neg Lexeme.nil_not_mem_keywordSpellings
  all_goals rfl

end Rule

/-- The first rule that fits at the front of `rest`, with the length of its lexeme. -/
def firstRule? (before : Option Char) (rest : List Char) : Option (Rule × Nat) :=
  Rule.all.findSome? fun rule => (rule.lexemeLength? before rest).map (rule, ·)

theorem firstRule?_pos {before : Option Char} {rest : List Char} {rule : Rule} {n : Nat}
    (h : firstRule? before rest = some (rule, n)) : 0 < n := by
  obtain ⟨r, -, hr⟩ := List.exists_of_findSome?_eq_some h
  obtain ⟨m, hm, heq⟩ := Option.map_eq_some_iff.1 hr
  cases heq
  exact Rule.lexemeLength?_pos hm

theorem firstRule?_eq_none_iff {before : Option Char} {rest : List Char} :
    firstRule? before rest = none ↔ rest = [] := by
  constructor
  · intro h
    -- the last rule has refused too, and it takes any character
    have := List.findSome?_eq_none_iff.1 h .unrecognised (by decide)
    cases rest with
    | nil => rfl
    | cons c cs => simp [Rule.lexemeLength?, Lexeme.anyCharacter?] at this
  · rintro rfl
    exact List.findSome?_eq_none_iff.2 fun rule _ => by simp [Rule.lexemeLength?_nil]

end TokenCensus.Grammar

/-!
# Kinds of tokens

The scanner sorts what it reads into eight kinds.  Six of them are emitted and counted; white
space and comments are *trivia*, which is recognised and dropped.

## Key results

- `mem_emitted`: the emitted kinds are exactly those that are not trivia
-/

namespace TokenCensus

/-- What a piece of source text is. -/
inductive Kind where
  | keyword
  | identifier
  | operator
  | constant
  | literal
  | punctuator
  | whitespace
  | comment
deriving DecidableEq, Repr

namespace Kind

/-- The name of the kind in reports. -/
def label : Kind → String
  | keyword => "KEYWORD"
  | identifier => "IDENTIFIER"
  | operator => "OPERATOR"
  | constant => "CONSTANT"
  | literal => "LITERAL"
  | punctuator => "PUNCTUATOR"
  | whitespace => "WHITESPACE"
  | comment => "COMMENT"

/-- Whether text of this kind is dropped. -/
def isTrivia : Kind → Bool
  | whitespace | comment => true
  | _ => false

/-- All kinds. -/
def all : List Kind :=
  [keyword, identifier, operator, constant, literal, punctuator, whitespace, comment]

/-- The kinds that tokens can have, in the order of reports. -/
def emitted : List Kind :=
  all.filter fun kind => !kind.isTrivia

theorem mem_emitted {kind : Kind} : kind ∈ emitted ↔ kind.isTrivia = false := by
  cases kind <;> decide

end Kind

end TokenCensus

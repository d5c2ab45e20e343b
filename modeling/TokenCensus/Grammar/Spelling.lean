/-!
# Fixed spellings

The words, operators and punctuators of the language.
-/

namespace TokenCensus.Grammar

/-- The reserved words. -/
def keywords : List String :=
  ["case", "return", "break", "void", "if", "int", "float", "do", "else", "while"]

/-- The operators.  Some of them begin with another. -/
def operators : List String :=
  ["++", "--", "+", "+=", "-", "-=", "*", "*=", "/", "/=", "%", "%=", "=", "==", "!", "!=", "<",
   "<=", ">", ">=", "&&", "||", "^", "^=", "<<", "<<=", ">>", ">>=", "&=", "|=", "&", "|"]

/-- The punctuators, of one character each. -/
def punctuators : List Char :=
  ['(', ')', '[', ']', '{', '}', '.', ',', ';', ':', '#']

/-- The characters of each reserved word. -/
def keywordSpellings : List (List Char) := keywords.map String.toList

theorem ofList_mem_keywords {word : List Char} :
    String.ofList word ∈ keywords ↔ word ∈ keywordSpellings := by
  rw [keywordSpellings, List.mem_map]
  refine ⟨fun h => ⟨_, h, String.toList_ofList⟩, ?_⟩
  intro h
  obtain ⟨spelling, hspelling, hspells⟩ := h
  rw [← hspells, String.ofList_toList]
  exact hspelling

/-- The characters of each operator. -/
def operatorSpellings : List (List Char) := operators.map String.toList

end TokenCensus.Grammar

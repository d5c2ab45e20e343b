import TokenCensus.Proofs.Content
import TokenCensus.Proofs.SelfDelimiting

/-!
# What the texts of tokens can be

Every token of a scan was found by the rule of its kind, so its text is a lexeme of that rule.
A token cannot have just any text, and that is what makes reports legible although they print the
texts as they are: a literal ends at its own closing quote, a punctuator is a single character, and
no other text holds a space or an opening bracket.

## Key results

- `spells_of_mem_tokens`: the text of a token is one of its kind
- `Kind.Spells.not_mem`: no space and no bracket in words, operators and numbers
- `selfDelimiting_isLiteral`: two literals that start a text are the same
- `Kind.selfDelimiting_spells`: texts of one kind are closed by a space or a bracket
-/

namespace TokenCensus

open Grammar (Rule firstRule?)

/-- `cs` can be the text of a token of `kind`: it is a lexeme of a rule that emits the kind. -/
def Kind.Spells (kind : Kind) (cs : List Char) : Prop :=
  ∃ (rule : Rule) (before : Option Char) (rest : List Char),
    rule.action = .emit kind ∧ rule.Fits before cs rest

/-- The text of a token is one of its kind. -/
theorem spells_of_mem_tokens {text : String} :
    ∀ token ∈ (scan text).tokens, token.kind.Spells token.value.toList := by
  intro token htoken
  obtain ⟨rule, front, back, haction, -, -, hfirst⟩ := firstRule?_of_mem_tokens htoken
  -- it was found by the rule of its kind, behind what stands before it
  have hfits := (Grammar.firstRule?_append_iff.1 hfirst).1
  exact ⟨rule, front.getLast?, back, haction, hfits⟩

/-! ## The texts of each kind -/

theorem Kind.Spells.isLiteral {cs : List Char} (h : Kind.literal.Spells cs) :
    Grammar.Lexeme.IsLiteral cs := by
  obtain ⟨rule, before, rest, haction, hfits⟩ := h
  cases rule with
  | literal => exact hfits
  | _ => exact nomatch haction

theorem Kind.Spells.isPunctuator {cs : List Char} (h : Kind.punctuator.Spells cs) :
    ∃ c ∈ Grammar.punctuators, cs = [c] := by
  obtain ⟨rule, before, rest, haction, hfits⟩ := h
  cases rule with
  | punctuator => exact hfits
  | _ => exact nomatch haction

theorem Kind.Spells.length_eq_one {cs : List Char} (h : Kind.punctuator.Spells cs) :
    cs.length = 1 := by
  obtain ⟨c, -, rfl⟩ := h.isPunctuator
  rfl

/-- Words, operators and numbers are what is left beside literals and punctuators. -/
theorem Kind.Spells.exists_wordlike {kind : Kind} {cs : List Char} (h : kind.Spells cs)
    (hliteral : kind ≠ .literal) (hpunctuator : kind ≠ .punctuator) :
    ∃ rule ∈ Rule.wordlike, ∃ before rest, rule.Fits before cs rest := by
  obtain ⟨rule, before, rest, haction, hfits⟩ := h
  have hword : rule ∈ Rule.wordlike := by
    -- among the rules that emit, two are ruled out by the kind
    cases rule with
    | literal => exact absurd (Grammar.Action.emit.inj haction).symm hliteral
    | punctuator => exact absurd (Grammar.Action.emit.inj haction).symm hpunctuator
    | keyword | identifier | operator | constant => decide
    | whitespace | comment | unterminatedComment | unterminatedLiteral | unrecognised =>
      exact nomatch haction
  exact ⟨rule, hword, before, rest, hfits⟩

/-- The marks that reports put behind the text of a token. -/
def textMarks : List Char := ['[', ' ']

/-- No space and no bracket occurs in words, operators and numbers. -/
theorem Kind.Spells.not_mem {kind : Kind} {cs : List Char} (h : kind.Spells cs)
    (hliteral : kind ≠ .literal) (hpunctuator : kind ≠ .punctuator) {mark : Char}
    (hmark : mark ∈ textMarks) : mark ∉ cs := by
  obtain ⟨rule, hword, before, rest, hfits⟩ := h.exists_wordlike hliteral hpunctuator
  -- of all rules that are left, none goes on with a mark
  have hno : ∀ rule ∈ Rule.wordlike, textMarks.any rule.continues = false := by decide
  intro hmem
  have hcontinues := hfits.continues_of_mem hword mark hmem
  exact absurd hcontinues (List.any_eq_false.1 (hno rule hword) mark hmark)

/-! ## Texts are closed -/

/-- Two literals that start a text are the same: both end at the first quote that can close
them. -/
theorem selfDelimiting_isLiteral : SelfDelimiting Grammar.Lexeme.IsLiteral id := by
  intro x y rest rest' hx hy h
  -- the scanner finds the same literal in the same text, and both are what it finds
  have hxs : Grammar.Lexeme.literal? (x ++ rest) = some x.length :=
    Grammar.Lexeme.literal?_recognises.eq_some hx
  have hys : Grammar.Lexeme.literal? (y ++ rest') = some y.length :=
    Grammar.Lexeme.literal?_recognises.eq_some hy
  have hsame : x ++ rest = y ++ rest' := h
  rw [hsame, hys] at hxs
  exact List.append_inj h (Option.some.inj hxs).symm

/-- The texts of a kind are closed by a space or a bracket, although they may hold one. -/
theorem Kind.selfDelimiting_spells (kind : Kind) {mark : Char} (hmark : mark ∈ textMarks) :
    SelfDelimiting kind.Spells fun cs => cs ++ [mark] := by
  by_cases hliteral : kind = .literal
  · -- a literal has its own end
    subst hliteral
    exact (selfDelimiting_isLiteral.mono fun cs => Kind.Spells.isLiteral).append_const [mark]
  · by_cases hpunctuator : kind = .punctuator
    · -- a punctuator is one character, whatever it is
      subst hpunctuator
      intro x y rest rest' hx hy h
      have hlength : (x ++ [mark]).length = (y ++ [mark]).length := by
        simp [hx.length_eq_one, hy.length_eq_one]
      obtain ⟨hsame, hrest⟩ := List.append_inj h hlength
      exact ⟨List.append_cancel_right hsame, hrest⟩
    · -- no other text holds the mark
      apply selfDelimiting_of_mark
      · exact fun cs hcs => hcs.not_mem hliteral hpunctuator hmark
      · exact fun x y _ _ h => h

end TokenCensus

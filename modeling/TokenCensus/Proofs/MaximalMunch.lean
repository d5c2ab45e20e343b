import TokenCensus.Proofs.Pattern
import TokenCensus.Proofs.Run

/-!
# The longest match

The scanner takes the first rule that fits, in the order of the rules, and never compares lengths.
And yet no other rule would have taken more, but for two kinds of exceptions.  What lacks its end
goes on to the end of the text.  And a sign is an operator, also where a number follows that it
would belong to.

The argument looks at a text that ends where the longer match ends.  There the winner is the same,
so a rule that matches more is one of the rules behind the winner.  Few of them can start with the
same character.

## Key results

- `Rule.mem_rivals`: the rules behind another that can start with the same character
- `mem_rivals_of_longer`: only they can match more than the winner takes
- `eq_of_longer`: what matches more than the winner takes
- `maximal_munch`: no rule matches more than the scanner takes
-/

namespace TokenCensus

namespace Grammar

namespace Rule

theorem mem_all (rule : Rule) : rule ∈ all := by
  cases rule <;> decide

/-- The rules behind `rule` that can start with a character that a lexeme of `rule` can start
with. -/
def rivals : Rule → List Rule
  | whitespace => [unrecognised]
  | comment => [unterminatedComment, operator, unrecognised]
  | unterminatedComment => [operator, unrecognised]
  | keyword => [identifier, unrecognised]
  | identifier => [unrecognised]
  | operator => [constant, unrecognised]
  | constant => [punctuator, unrecognised]
  | literal => [unterminatedLiteral, unrecognised]
  | unterminatedLiteral => [unrecognised]
  | punctuator => [unrecognised]
  | unrecognised => []

theorem starts_eq_false_behind_word {c : Char} (hc : isWordStart c = true) :
    ∀ other ∈ [operator, constant, literal, unterminatedLiteral, punctuator],
      other.starts c = false := by
  -- neither an operator nor a punctuator starts as a word does
  have hop : [c] ∉ operatorSpellings := fun hmem => by
    have hno : ∀ operator ∈ operatorSpellings, operator.any isWordStart = false := by decide
    have := hno [c] hmem
    simp [hc] at this
  have hsign : isSign c = false := Bool.eq_false_iff.2 fun hsign =>
    hop (mem_operatorSpellings_of_isSign hsign)
  have hdigit := isDigit_eq_false_of_isWordStart hc
  have hno : ('"' :: punctuators).any isWordStart = false := by decide
  have hpunct : c ∉ '"' :: punctuators := fun hmem => by
    have := List.any_eq_false.1 hno c hmem
    simp [hc] at this
  have hpoint : c ≠ '.' := fun heq => hpunct (by rw [heq]; decide)
  simp only [List.mem_cons, not_or] at hpunct
  simp [starts, hop, hsign, hdigit, hpunct, hpoint]

/-- A rule that is tried later can start with the same character only if it is a rival. -/
theorem mem_rivals {rule other : Rule} {c : Char} (hearlier : other ∉ rule.earlier)
    (hne : other ≠ rule) (hrule : rule.starts c = true) (hother : other.starts c = true) :
    other ∈ rule.rivals := by
  -- where `c` is one of a few, all rules can be tried
  have hfew : ∀ chars : List Char, (∀ other ∈ all, other ∉ rule.earlier → other ≠ rule →
      chars.any other.starts = true → other ∈ rule.rivals) → c ∈ chars → other ∈ rule.rivals :=
    fun chars h hc =>
      h other (mem_all other) hearlier hne (List.any_eq_true.2 ⟨c, hc, hother⟩)
  cases rule with
  | whitespace =>
    refine hfew [' ', '\t', '\n', '\r', '\x0b', '\x0c'] (by decide) ?_
    simpa [starts, isBlank, or_assoc] using hrule
  | comment | unterminatedComment =>
    refine hfew ['/'] (by decide) ?_
    simpa [starts] using hrule
  | keyword | identifier =>
    -- all that is tried later is a rival, or starts otherwise
    have hlater : ∀ rule ∈ [keyword, identifier], ∀ other ∈ all, other ∉ rule.earlier →
        other ≠ rule → other ∈ rule.rivals ∨
          other ∈ [operator, constant, literal, unterminatedLiteral, punctuator] := by
      decide
    refine (hlater _ (by decide) other (mem_all other) hearlier hne).resolve_right fun hmem => ?_
    simp [starts_eq_false_behind_word hrule other hmem] at hother
  | operator =>
    refine hfew (operatorSpellings.filterMap List.head?) (by decide) ?_
    exact List.mem_filterMap.2 ⟨[c], List.contains_iff_mem.1 hrule, rfl⟩
  | constant =>
    have hlater : ∀ other ∈ all, other ∉ constant.earlier → other ≠ constant →
        other ∈ constant.rivals ∨ other = literal ∨ other = unterminatedLiteral := by
      decide
    refine (hlater other (mem_all other) hearlier hne).resolve_right fun hliteral => ?_
    -- no number starts with a quote
    obtain rfl : c = '"' := by
      rcases hliteral with rfl | rfl <;> exact of_decide_eq_true hother
    exact absurd hrule (by decide)
  | literal | unterminatedLiteral =>
    refine hfew ['"'] (by decide) ?_
    simpa [starts] using hrule
  | punctuator =>
    refine hfew punctuators (by decide) ?_
    simpa [starts] using hrule
  | unrecognised =>
    -- every other rule is tried earlier
    have hnone : ∀ other ∈ all, other ∈ unrecognised.earlier ∨ other = unrecognised := by decide
    exact absurd ((hnone other (mem_all other)).resolve_left hearlier) hne

end Rule

open Lexeme Rule

/-- An operator that a number goes on from is a sign. -/
theorem eq_sign_of_number {n : Number} {lexeme extra : List Char}
    (hmem : lexeme ∈ operatorSpellings) (hn : n.chars = lexeme ++ extra) :
    ∃ sign, isSign sign = true ∧ lexeme = [sign] := by
  obtain ⟨d, ds, hds, hd⟩ := n.mantissa.exists_head
  have hspellings : ∀ operator ∈ operatorSpellings, operator ≠ [] ∧
      operator.any (fun e => e.isDigit || e = '.') = false := by
    decide
  obtain ⟨hne, hany⟩ := hspellings lexeme hmem
  have hno : ∀ e ∈ lexeme, ¬ (e.isDigit = true ∨ e = '.') := by
    simpa using hany
  obtain ⟨c, cs, rfl⟩ := List.exists_cons_of_ne_nil hne
  cases hsign : n.sign with
  | none =>
    -- the mantissa starts with a digit or a point, and no operator does
    simp only [Number.chars, hsign, hds, Option.toList_none, List.nil_append, List.cons_append,
      List.cons.injEq] at hn
    exact absurd hd (hn.1 ▸ hno c List.mem_cons_self)
  | some sign =>
    simp only [Number.chars, hsign, hds, Option.toList_some, List.cons_append, List.nil_append,
      List.cons.injEq] at hn
    obtain ⟨rfl, htail⟩ := hn
    -- behind its sign the operator has nothing, since the mantissa would have to come next
    cases cs with
    | nil => exact ⟨sign, n.sign_ok sign hsign, rfl⟩
    | cons e es =>
      obtain ⟨rfl, -⟩ := List.cons.inj htail
      exact absurd hd (hno d (by simp))

/-- What opens a comment goes on to no operator. -/
theorem not_mem_operatorSpellings_of_comment {lexeme extra : List Char}
    (h : IsLineComment lexeme ∨ IsBlockComment lexeme) : lexeme ++ extra ∉ operatorSpellings := by
  intro hmem
  -- the two marks at its start are an operator neither by themselves nor with more behind them
  have hno : ∀ operator ∈ operatorSpellings,
      ¬ ['/', '/'] <+: operator ∧ ¬ ['/', '*'] <+: operator := by
    decide
  rcases h with ⟨body, rfl, -⟩ | ⟨body, rfl, -⟩
  · exact (hno _ hmem).1 ⟨body ++ extra, rfl⟩
  · exact (hno _ hmem).2 ⟨body ++ ['*', '/'] ++ extra, rfl⟩

/-- A rule that matches more than the winner is one of its rivals: it is tried later, or else it
would have won. -/
theorem mem_rivals_of_longer {before : Option Char} {rule other : Rule} {lexeme extra : List Char}
    (h : firstRule? before (lexeme ++ extra) = some (rule, lexeme.length)) (hextra : extra ≠ [])
    (hother : other.Fits before (lexeme ++ extra) []) : other ∈ rule.rivals := by
  obtain ⟨hlength, hnone⟩ := firstRule?_eq_some_iff.1 h
  have hfits := (firstRule?_append_iff.1 h).1
  -- the other rule would be found to match all of the text
  have hfound := (other.lexemeLength?_recognises before).eq_some hother
  rw [List.append_nil] at hfound
  -- an earlier rule that matches would have won
  have hearlier : other ∉ rule.earlier := fun hmem => by
    rw [hnone other hmem] at hfound
    exact nomatch hfound
  have hne : other ≠ rule := fun heq => by
    have := List.length_pos_iff.2 hextra
    rw [heq, hlength, Option.some.injEq, List.length_append] at hfound
    omega
  obtain ⟨c, cs, rfl⟩ := List.exists_cons_of_ne_nil hfits.ne_nil
  exact mem_rivals hearlier hne (starts_of_fits hfits) (starts_of_fits hother)

/-- Punctuators and stray characters are single characters. -/
theorem length_eq_one_of_fits {before : Option Char} {rule : Rule} {lexeme after : List Char}
    (h : rule.Fits before lexeme after) (hrule : rule = punctuator ∨ rule = unrecognised) :
    lexeme.length = 1 := by
  rcases hrule with rfl | rfl
  · obtain ⟨c, -, rfl⟩ := h
    rfl
  · obtain ⟨c, rfl⟩ := h
    rfl

/-- What matches more than the winner takes: a number where the winner takes its sign. -/
theorem eq_of_longer {before : Option Char} {rule other : Rule} {lexeme extra : List Char}
    (h : firstRule? before (lexeme ++ extra) = some (rule, lexeme.length)) (hextra : extra ≠ [])
    (hother : other.Fits before (lexeme ++ extra) [])
    (hopen : other ∉ [unterminatedComment, unterminatedLiteral]) :
    rule = operator ∧ other = constant ∧ ∃ sign, isSign sign = true ∧ lexeme = [sign] := by
  have hfits := (firstRule?_append_iff.1 h).1
  have hrival := mem_rivals_of_longer h hextra hother
  -- what matches more has two characters at least
  have hlong : ¬ (other = punctuator ∨ other = unrecognised) := fun heq => by
    have hone := length_eq_one_of_fits hother heq
    have hlexeme := List.length_pos_iff.2 hfits.ne_nil
    have := List.length_pos_iff.2 hextra
    rw [List.length_append] at hone
    omega
  rw [not_or] at hlong
  rw [List.mem_cons, List.mem_singleton, not_or] at hopen
  -- of the rivals of each rule, at most one is left
  cases rule with
  | whitespace | identifier | constant | literal | punctuator | unrecognised =>
    simp [rivals, hlong, hopen] at hrival
  -- nothing stands behind what lacks its end
  | unterminatedComment | unterminatedLiteral => exact absurd hfits.2 hextra
  | comment =>
    obtain rfl : other = operator := by simpa [rivals, hlong, hopen] using hrival
    have hcomment := hfits.imp_left And.left
    exact absurd hother.1 (not_mem_operatorSpellings_of_comment hcomment)
  | keyword =>
    obtain rfl : other = identifier := by simpa [rivals, hlong, hopen] using hrival
    -- the word would have gone on
    obtain ⟨e, es, rfl⟩ := List.exists_cons_of_ne_nil hextra
    obtain ⟨c, cs, rfl⟩ := List.exists_cons_of_ne_nil hfits.ne_nil
    have hword := hother.continues_of_mem (by decide) e (by simp)
    have hstop := stops_cons.1 hfits.2.2
    rw [show isWord e = true from hword] at hstop
    exact nomatch hstop
  -- a number that starts with the operator
  | operator =>
    obtain rfl : other = constant := by simpa [rivals, hlong, hopen] using hrival
    obtain ⟨n, hn, -⟩ := hother
    exact ⟨rfl, rfl, eq_sign_of_number hfits.1 hn⟩

end Grammar

open Grammar (Rule isSign Stops)

/-- What is longer than a match at the same place goes on where the match ends. -/
theorem Match.exists_extra {m : Match} {front back front' longer back' : List Char}
    (h : front ++ (m.lexeme ++ back) = front' ++ (longer ++ back'))
    (hfront : Text.byteLength front = m.start) (hfront' : Text.byteLength front' = m.start)
    (hlonger : m.stop < Text.byteLength (front' ++ longer)) :
    front = front' ∧ ∃ extra, extra ≠ [] ∧ longer = m.lexeme ++ extra ∧ back = extra ++ back' := by
  obtain ⟨rfl, hrest⟩ := Text.append_inj_of_byteLength h (hfront.trans hfront'.symm)
  rw [Match.stop, Text.byteLength_append, hfront] at hlonger
  have hpre : m.lexeme <+: longer :=
    Text.isPrefix_of_byteLength_le ⟨back, hrest⟩ (by omega)
  obtain ⟨extra, rfl⟩ := hpre
  refine ⟨rfl, extra, ?_, rfl, by simpa using hrest⟩
  intro hnil
  simp [hnil] at hlonger

/-- No number starts with a sign. -/
theorem stops_isSign_of_constant {text : String} {token : Token}
    (h : token ∈ (scan text).tokens) (hkind : token.kind = .constant) :
    Stops isSign token.value.toList := by
  -- the scanner has found the token by a rule that fits and that no other rule was before
  obtain ⟨rule, front, back, haction, -, -, hfirst⟩ := firstRule?_of_mem_tokens h
  have hfree := (Grammar.firstRule?_append_iff.1 hfirst).2
  rw [hkind] at haction
  obtain rfl : rule = .constant := by
    cases rule <;> simp [Rule.action] at haction ⊢
  exact hfree

/-- No rule would have matched more than the scanner takes.  Each match is one of the pattern of
its rule, and at the same place no pattern matches more in full, apart from those of what lacks its
end; only a sign, which is an operator, may be the start of a number.  So no constant has a
sign. -/
theorem maximal_munch (text : String) :
    (∀ m ∈ allMatches text, ∃ front back, text.toList = front ++ (m.lexeme ++ back) ∧
      Text.byteLength front = m.start ∧ m.rule.MatchesIn front m.lexeme back) ∧
    (∀ m ∈ allMatches text, ∀ front longer back, text.toList = front ++ (longer ++ back) →
      Text.byteLength front = m.start → m.stop < Text.byteLength (front ++ longer) →
      ∀ other ∉ [Rule.unterminatedComment, Rule.unterminatedLiteral],
        other.MatchesIn front longer back →
        m.rule = .operator ∧ other = .constant ∧
          ∃ sign, isSign sign = true ∧ m.lexeme = [sign] ∧ longer.head? = some sign) ∧
    ∀ token ∈ (scan text).tokens, token.kind = .constant → Stops isSign token.value.toList := by
  refine ⟨fun m hm => ?_, ?_, fun token => stops_isSign_of_constant⟩
  · -- the rule of a match fits, and what fits is matched by the pattern
    obtain ⟨front, back, htext, hstart, hfirst⟩ := firstRule?_of_mem_allMatches hm
    have hfits := (Grammar.firstRule?_append_iff.1 hfirst).1
    exact ⟨front, back, htext, hstart, Rule.matchesIn_of_fits hfits⟩
  · -- a longer match at the same place
    intro m hm front longer back htext hstart hlonger other hopen hmatch
    obtain ⟨front', back', htext', hstart', hfirst⟩ := firstRule?_of_mem_allMatches hm
    obtain ⟨rfl, extra, hextra, rfl, rfl⟩ :=
      Match.exists_extra (htext'.symm.trans htext) hstart' hstart hlonger
    -- the text may as well end where the longer match does
    have hshort : Grammar.firstRule? front'.getLast? (m.lexeme ++ (extra ++ [])) =
        some (m.rule, m.lexeme.length) :=
      Grammar.firstRule?_replace hfirst (fun _ => rfl) (Grammar.stops_nil _)
    rw [List.append_nil] at hshort
    obtain ⟨hrule, hother, sign, hsign, hlexeme⟩ :=
      Grammar.eq_of_longer hshort hextra (Rule.fits_of_matchesIn hmatch) hopen
    exact ⟨hrule, hother, sign, hsign, hlexeme, by rw [hlexeme]; rfl⟩

/-- A sign in front of a digit is an operator, although the two together would be a number.  The
constant is the digit. -/
theorem maximal_munch_sign :
    (⟨.operator, 0, ['+']⟩ : Match) ∈ allMatches "+1" ∧
    Rule.constant.MatchesIn [] ['+', '1'] [] ∧
    (∃ sign, isSign sign = true ∧ ['+'] = [sign] ∧ ['+', '1'].head? = some sign) ∧
    (∃ front back, "+1".toList = front ++ (['+'] ++ back) ∧ Text.byteLength front = 0 ∧
      Rule.operator.MatchesIn front ['+'] back) ∧
    (⟨.constant, "1", ⟨1, 2⟩⟩ : Token) ∈ (scan "+1").tokens ∧ Stops isSign "1".toList := by
  have hmem : (⟨.operator, 0, ['+']⟩ : Match) ∈ allMatches "+1" := by decide +kernel
  have htoken : (⟨.constant, "1", ⟨1, 2⟩⟩ : Token) ∈ (scan "+1").tokens := by decide +kernel
  have hdigits : ∀ c ∈ ['1'], c.isDigit = true := by simp
  let number : Grammar.Number :=
    ⟨some '+', ⟨['1'], none, hdigits, by simp, .inl (by simp)⟩, none, by simp [isSign]⟩
  have hnumber : Rule.constant.MatchesIn [] ['+', '1'] [] :=
    ⟨Grammar.Pattern.mem_number_iff.2 ⟨number, rfl⟩, by simp⟩
  obtain ⟨hmatches, hlongest, hsigns⟩ := maximal_munch "+1"
  have hsign := hlongest _ hmem [] ['+', '1'] [] (by decide) (by decide) (by decide)
    .constant (by decide) hnumber
  exact ⟨hmem, hnumber, hsign.2.2, hmatches _ hmem, htoken, hsigns _ htoken rfl⟩

end TokenCensus

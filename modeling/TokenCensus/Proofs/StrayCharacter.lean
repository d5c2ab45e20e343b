import TokenCensus.Proofs.ClosingMark
import TokenCensus.Proofs.Newline

/-!
# Stray characters

A character outside the alphabet of the language starts no lexeme, and it continues none but
comments and literals.  So it separates what stands on both sides of it, as a blank does, and is
reported on top.  Half an exponent before it stays half an exponent, and a reserved word behind it
stands at a word boundary.

Inside a comment or a literal it would be text like any other.  It stands outside of both if
nothing before it lacks its end and the last thing before it is not a comment that goes on to the
end of its line.

## Key results

- `inAlphabet_iff`: the alphabet, spelled out, holds what lexemes start with
- `firstRule?_append_stray`: a lexeme is found again when a stray character comes behind the text
- `Run.append_stray`: the run of two texts with a stray character between them
- `exists_stray_of_mem_diagnostics`: only characters outside the alphabet are reported, one by one
- `stray_character_disturbs_nothing`: what two texts hold with a stray character between them
-/

namespace TokenCensus

open Grammar (Rule firstRule?)
open Grammar.Lexeme (IsLineComment)

/-! ## The alphabet -/

namespace Grammar

/-- The alphabet of the language: letters and digits of ASCII, the underscore, the blanks, the
quote, the punctuators, and the characters of operators. -/
def InAlphabet (c : Char) : Prop :=
  c.isAlphanum = true ∨ c = '_' ∨ c ∈ [' ', '\t', '\n', '\r', '\x0b', '\x0c'] ∨ c = '"' ∨
    c ∈ ['(', ')', '[', ']', '{', '}', '.', ',', ';', ':', '#'] ∨
    c ∈ ['+', '-', '*', '/', '%', '=', '!', '<', '>', '&', '|', '^']

instance (c : Char) : Decidable (InAlphabet c) := inferInstanceAs (Decidable (_ ∨ _))

theorem isBlank_iff {c : Char} :
    isBlank c = true ↔ c ∈ [' ', '\t', '\n', '\r', '\x0b', '\x0c'] := by
  simp [isBlank, or_assoc]

/-- The operators of one character. -/
theorem singleton_mem_operatorSpellings_iff {c : Char} :
    [c] ∈ operatorSpellings ↔
      c ∈ ['+', '-', '*', '/', '%', '=', '!', '<', '>', '&', '|', '^'] := by
  have hsingle : operatorSpellings.filter (·.length = 1) =
      ['+', '-', '*', '/', '%', '=', '!', '<', '>', '^', '&', '|'].map ([·]) := by
    decide
  -- the table of operators has them in another order
  have hperm : ['+', '-', '*', '/', '%', '=', '!', '<', '>', '^', '&', '|'].Perm
      ['+', '-', '*', '/', '%', '=', '!', '<', '>', '&', '|', '^'] := by
    decide
  calc [c] ∈ operatorSpellings
      ↔ [c] ∈ operatorSpellings.filter (·.length = 1) := by simp
    _ ↔ c ∈ ['+', '-', '*', '/', '%', '=', '!', '<', '>', '^', '&', '|'] := by
      rw [hsingle, List.mem_map_of_injective List.singleton_injective]
    _ ↔ _ := hperm.mem_iff

/-- The alphabet holds the characters that lexemes other than stray characters start with. -/
theorem inAlphabet_iff {c : Char} : InAlphabet c ↔ Rule.isKnown c = true := by
  have hpunctuator : c ∈ punctuators ↔
      c ∈ ['(', ')', '[', ']', '{', '}', '.', ',', ';', ':', '#'] := Iff.rfl
  -- both sides are the same classes of characters, in different orders
  simp only [Rule.isKnown, isWord, Bool.or_eq_true, decide_eq_true_eq, List.contains_iff_mem,
    isBlank_iff, singleton_mem_operatorSpellings_iff, hpunctuator]
  rw [InAlphabet]
  tauto

/-! ## A stray character behind a text -/

/-- A stray character goes on with no lexeme that ends before the text does, but for comments. -/
theorem Rule.continues_stray {rule : Rule} {c : Char} (hc : Rule.isKnown c = false)
    (hcomment : rule ≠ .comment) (hopen : rule ≠ .unterminatedComment)
    (hliteral : rule ≠ .unterminatedLiteral) : rule.continues c = false := by
  simp only [Rule.isKnown, Bool.or_eq_false_iff, decide_eq_false_iff_not] at hc
  obtain ⟨⟨⟨⟨hblank, hword⟩, hoperator⟩, -⟩, hpunctuator⟩ := hc
  -- the classes of `isKnown` are those that rules go on with
  cases rule with
  | whitespace => exact hblank
  | comment => exact absurd rfl hcomment
  | keyword | identifier => exact hword
  | operator => exact hoperator
  | constant =>
    -- signs are operators, and the point is a punctuator
    have hsign : isSign c = false := Bool.eq_false_iff.2 fun hsign => by
      rw [List.contains_iff_mem.2 (Rule.mem_operatorSpellings_of_isSign hsign)] at hoperator
      cases hoperator
    have hpoint : c ≠ '.' := by
      rintro rfl
      exact hpunctuator (by decide)
    simp [continues, hword, hsign, hpoint]
  | punctuator =>
    -- only a digit makes a number out of a point
    refine Bool.eq_false_iff.2 fun hdigit => ?_
    rw [isWord_of_isDigit hdigit] at hword
    cases hword
  | literal | unrecognised => rfl
  | unterminatedComment => exact absurd rfl hopen
  | unterminatedLiteral => exact absurd rfl hliteral

/-- A lexeme is found again when a stray character comes behind the text, unless it lacks its own
end or is a comment that goes on to the end of the text. -/
theorem firstRule?_append_stray {before : Option Char} {rule : Rule} {lexeme rest : List Char}
    {c : Char} (h : firstRule? before (lexeme ++ rest) = some (rule, lexeme.length))
    (hopen : rule ≠ .unterminatedComment) (hliteral : rule ≠ .unterminatedLiteral)
    (hline : rest = [] → ¬ (rule = .comment ∧ IsLineComment lexeme))
    (hc : Rule.isKnown c = false) (more : List Char) :
    firstRule? before (lexeme ++ (rest ++ c :: more)) = some (rule, lexeme.length) := by
  by_cases hcomment : rule = .comment
  · subst hcomment
    rcases (firstRule?_append_iff.1 h).1 with ⟨hlexeme, hstops⟩ | hblock
    · -- the newline that ends the comment is there already
      have hstops' : Stops (· ≠ '\n') (rest ++ c :: more) := by
        rw [← List.append_nil rest] at hstops
        exact hstops.replace fun hnil => absurd ⟨rfl, hlexeme⟩ (hline hnil)
      exact firstRule?_append_iff.2 ⟨.inl ⟨hlexeme, hstops'⟩, trivial⟩
    · -- a block comment has its end already
      exact firstRule?_append_iff.2 ⟨.inr hblock, trivial⟩
  · -- all other rules see that the stray character does not go on with them
    rw [← List.append_nil rest] at h
    have hstops : Stops rule.continues (c :: more) :=
      stops_cons.2 (Rule.continues_stray hc hcomment hopen hliteral)
    exact firstRule?_replace h (fun _ => rfl) hstops

/-- A stray character is a lexeme of its own, whatever stands on both sides. -/
theorem firstRule?_stray (before : Option Char) {c : Char} (hc : Rule.isKnown c = false)
    (rest : List Char) : firstRule? before ([c] ++ rest) = some (.unrecognised, [c].length) := by
  refine firstRule?_append_iff.2 ⟨⟨c, rfl⟩, fun d hd => ?_⟩
  rw [List.mem_singleton.1 hd]
  exact hc

end Grammar

/-! ## Two texts with a stray character between them -/

/-- The run of two texts with a stray character between them is that of the first, the stray
character, and the run of the second. -/
theorem Run.append_stray {before : Option Char} {front back : List Char}
    {pieces others : List Piece} {c : Char} (h : Run before front pieces)
    (hends : ∀ piece ∈ pieces,
      piece.rule ≠ .unterminatedComment ∧ piece.rule ≠ .unterminatedLiteral)
    (hlast : ∀ piece ∈ pieces.getLast?, ¬ (piece.rule = .comment ∧ IsLineComment piece.lexeme))
    (hc : Rule.isKnown c = false) (hback : Run none back others) :
    Run before (front ++ c :: back) (pieces ++ ⟨.unrecognised, [c]⟩ :: others) := by
  induction h with
  | @nil before =>
    -- the second text stands behind no word, as at the start
    have hword : [c].getLast?.any Grammar.isWord = none.any Grammar.isWord :=
      Grammar.Rule.isWord_eq_false_of_unknown hc
    exact .cons (Grammar.firstRule?_stray before hc back) (hback.congr hword)
  | @cons before rule lexeme rest pieces hfirst hrest ih =>
    obtain ⟨⟨hopen, hliteral⟩, hends⟩ := List.forall_mem_cons.1 hends
    -- the last piece is the only one with nothing behind it in the first text
    have hline : rest = [] → ¬ (rule = .comment ∧ IsLineComment lexeme) := by
      rintro rfl
      obtain rfl := hrest.unique .nil
      exact hlast ⟨rule, lexeme⟩ rfl
    have hstep := Grammar.firstRule?_append_stray hfirst hopen hliteral hline hc back
    -- what is last behind this piece is last of all
    have hrest := ih hends fun piece hpiece => hlast piece <| by
      rw [List.getLast?_cons, Option.mem_def.1 hpiece]
      rfl
    rw [List.append_assoc]
    exact .cons hstep hrest

/-- Whether the match is a comment that goes on to the end of its line. -/
def Match.IsLineComment (m : Match) : Prop :=
  m.rule = .comment ∧ Grammar.Lexeme.IsLineComment m.lexeme

/-- A stray character outside comments and literals is all that comes between what two texts
hold. -/
theorem scan_append_stray {a : String} {c : Char} (hc : Rule.isKnown c = false)
    (hends : ∀ diagnostic ∈ (scan a).diagnostics,
      diagnostic.problem ≠ .unterminatedComment ∧ diagnostic.problem ≠ .unterminatedLiteral)
    (hlast : ∀ m ∈ (allMatches a).getLast?, ¬ m.IsLineComment) (b : String) :
    scan (a ++ String.singleton c ++ b) =
      scan a ++ (⟨[], [⟨.unrecognisedCharacter (String.singleton c), a.utf8ByteSize⟩]⟩ ++
        (scan b).shift (a.utf8ByteSize + c.utf8Size)) := by
  obtain ⟨pieces, hpieces, hall⟩ := exists_run_text a
  obtain ⟨others, hothers⟩ := exists_run none b.toList
  -- the last match is the last piece, at its place
  have hline : ∀ piece ∈ pieces.getLast?,
      ¬ (piece.rule = .comment ∧ IsLineComment piece.lexeme) := by
    intro piece hpiece hcomment
    rw [← place_map_piece 0 pieces, ← hall, List.getLast?_map, Option.mem_def,
      Option.map_eq_some_iff] at hpiece
    obtain ⟨m, hm, rfl⟩ := hpiece
    exact hlast m hm hcomment
  have hrun := hpieces.append_stray (rule_ne_of_diagnostics hpieces hends) hline hc hothers
  have hchars : (a ++ String.singleton c ++ b).toList = a.toList ++ c :: b.toList := by simp
  have hproblem : (⟨.unrecognised, [c]⟩ : Piece).problem? =
      some (.unrecognisedCharacter (String.singleton c)) := rfl
  have hstop : 0 + a.utf8ByteSize + Text.byteLength [c] = 0 + (a.utf8ByteSize + c.utf8Size) := by
    rw [Text.byteLength_cons, Text.byteLength_nil, Nat.add_zero, Nat.add_assoc]
  rw [scan_eq_ofPieces (hchars ▸ hrun), Scan.ofPieces_append, hpieces.lexemes_eq,
    Text.byteLength_toList, Scan.ofPieces_cons, Scan.ofPieces_of_problem? hproblem, hstop,
    Scan.ofPieces_add, ← scan_eq_ofPieces hpieces, ← scan_eq_ofPieces hothers, Nat.zero_add]

/-! ## What is reported as a stray character -/

/-- Only the last rule reports stray characters. -/
theorem Grammar.Rule.eq_unrecognised_of_action {rule : Rule} {fault : Fault} {lexeme : String}
    {character : String} (haction : rule.action = .diagnose fault)
    (hproblem : fault.problem lexeme = .unrecognisedCharacter character) :
    rule = .unrecognised ∧ lexeme = character := by
  -- two other rules report too, but other problems
  cases rule with
  | unrecognised =>
    obtain rfl := Action.diagnose.inj haction
    exact ⟨rfl, Problem.unrecognisedCharacter.inj hproblem⟩
  | unterminatedComment | unterminatedLiteral =>
    obtain rfl := Action.diagnose.inj haction
    exact nomatch hproblem
  | whitespace | comment | keyword | identifier | operator | constant | literal | punctuator =>
    exact nomatch haction

/-- A stray character is reported alone, where it stands, and is outside the alphabet. -/
theorem exists_stray_of_mem_diagnostics {text character : String} {diagnostic : Diagnostic}
    (h : diagnostic ∈ (scan text).diagnostics)
    (hproblem : diagnostic.problem = .unrecognisedCharacter character) :
    ∃ c, character = String.singleton c ∧ ¬ Grammar.InAlphabet c ∧
      Text.StandsAt text character diagnostic.position := by
  obtain ⟨rule, fault, front, lexeme, back, haction, hfault, htext, hposition, hfirst⟩ :=
    firstRule?_of_mem_diagnostics h
  obtain ⟨rfl, rfl⟩ := Rule.eq_unrecognised_of_action haction (hfault.symm.trans hproblem)
  -- the rule that reports stray characters takes one that is not known
  obtain ⟨⟨c, rfl⟩, hunknown⟩ := Grammar.firstRule?_append_iff.1 hfirst
  have hc : Rule.isKnown c = false := hunknown c List.mem_cons_self
  refine ⟨c, rfl, ?_, ?_⟩
  · rw [Grammar.inAlphabet_iff, hc]
    exact Bool.false_ne_true
  · exact Text.standsAt_iff.2 ⟨front, back, by rw [String.toList_ofList, htext], hposition⟩

/-- A stray character disturbs nothing.  Outside comments and literals, the tokens and the
diagnostics of what stands before it and of what stands behind it are found as if it were not there,
and between them it is reported.  Whatever is reported as a stray character is one character, stands
where the report says, and is outside the alphabet. -/
theorem stray_character_disturbs_nothing :
    (∀ (a b : String) (c : Char), ¬ Grammar.InAlphabet c →
      (∀ diagnostic ∈ (scan a).diagnostics,
        diagnostic.problem ≠ .unterminatedComment ∧ diagnostic.problem ≠ .unterminatedLiteral) →
      (∀ m ∈ (allMatches a).getLast?, ¬ m.IsLineComment) →
      (scan (a ++ String.singleton c ++ b)).tokens =
        (scan a).tokens ++ (scan b).tokens.map (Token.shift (a.utf8ByteSize + c.utf8Size)) ∧
      (scan (a ++ String.singleton c ++ b)).diagnostics =
        (scan a).diagnostics ++
          ⟨.unrecognisedCharacter (String.singleton c), a.utf8ByteSize⟩ ::
            (scan b).diagnostics.map (Diagnostic.shift (a.utf8ByteSize + c.utf8Size))) ∧
    ∀ (text : String), ∀ diagnostic ∈ (scan text).diagnostics, ∀ character,
      diagnostic.problem = .unrecognisedCharacter character →
      ∃ c, character = String.singleton c ∧ ¬ Grammar.InAlphabet c ∧
        Text.StandsAt text character diagnostic.position := by
  constructor
  · intro a b c hc hends hlast
    rw [Grammar.inAlphabet_iff, Bool.not_eq_true] at hc
    rw [scan_append_stray hc hends hlast b]
    exact ⟨rfl, rfl⟩
  · intro text diagnostic hmem character hproblem
    exact exists_stray_of_mem_diagnostics hmem hproblem

/-- An accented letter keeps half an exponent apart from what would be its digits. -/
theorem stray_character_half_exponent_accent :
    ¬ Grammar.InAlphabet 'é' ∧
    (∀ diagnostic ∈ (scan "1e").diagnostics,
      diagnostic.problem ≠ .unterminatedComment ∧ diagnostic.problem ≠ .unterminatedLiteral) ∧
    (∀ m ∈ (allMatches "1e").getLast?, ¬ m.IsLineComment) ∧
    (scan ("1e" ++ String.singleton 'é' ++ "5")).tokens =
      (scan "1e").tokens ++ (scan "5").tokens.map (Token.shift 4) ∧
    (scan ("1e" ++ String.singleton 'é' ++ "5")).diagnostics =
      (scan "1e").diagnostics ++
        ⟨.unrecognisedCharacter "é", 2⟩ :: (scan "5").diagnostics.map (Diagnostic.shift 4) ∧
    (⟨.unrecognisedCharacter "é", 2⟩ : Diagnostic) ∈ (scan "1eé5").diagnostics ∧
    ∃ c, "é" = String.singleton c ∧ ¬ Grammar.InAlphabet c ∧ Text.StandsAt "1eé5" "é" 2 := by
  have hc : ¬ Grammar.InAlphabet 'é' := by decide
  have hends : ∀ diagnostic ∈ (scan "1e").diagnostics,
      diagnostic.problem ≠ .unterminatedComment ∧
        diagnostic.problem ≠ .unterminatedLiteral := by
    decide +kernel
  have hlast : ∀ m ∈ (allMatches "1e").getLast?, ¬ m.IsLineComment := by
    -- the only match of `1e` is no comment at all
    have hrule : ∀ m ∈ (allMatches "1e").getLast?, m.rule ≠ .comment := by decide +kernel
    exact fun m hm hcomment => hrule m hm hcomment.1
  obtain ⟨htokens, hdiagnostics⟩ :=
    stray_character_disturbs_nothing.1 "1e" "5" 'é' hc hends hlast
  have hmem : (⟨.unrecognisedCharacter "é", 2⟩ : Diagnostic) ∈ (scan "1eé5").diagnostics := by
    decide +kernel
  have hstands := stray_character_disturbs_nothing.2 "1eé5" _ hmem "é" rfl
  exact ⟨hc, hends, hlast, htokens, hdiagnostics, hmem, hstands⟩

end TokenCensus

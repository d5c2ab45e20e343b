import Mathlib.Data.List.Basic
import TokenCensus.Proofs.Content

/-!
# How far the scanner looks ahead

To find a lexeme the scanner reads beyond its end, but never by more than three bytes, unless it
reads to the end of the text anyhow.  So what is found is found for good once three more bytes are
known: whatever comes behind them, the matches that end before them stay as they are.

Three bytes are what an exponent needs.  Behind `1` the scanner reads `e`, a sign and a digit before
it knows that there is an exponent.  All other rules know after one character.

## Key results

- `Number.Ends.append`: three bytes tell whether a number goes on
- `settles_of_mem`: so does a character that no number goes on with
- `firstRule?_append`: a lexeme with so much behind it is found again in a longer text
- `Run.append_prefix`: the run of a longer text starts with the pieces that end three bytes before
  the end of the shorter one
- `allMatches_append_prefix`: so do the matches, the tokens and the reports of stray characters
-/

namespace TokenCensus

open Grammar (Rule Stops firstRule?)

/-! ## One lexeme -/

namespace Grammar

/-- A text that stops, and does not end there, goes on stopping whatever comes behind it. -/
theorem Stops.append {p : Char → Bool} {rest : List Char} (h : Stops p rest) (hne : rest ≠ [])
    (more : List Char) : Stops p (rest ++ more) := by
  cases rest with
  | nil => exact absurd rfl hne
  | cons c cs => exact stops_cons.2 (stops_cons.1 h)

theorem utf8Size_of_isDigit {c : Char} (h : c.isDigit = true) : c.utf8Size = 1 := by
  have hle := (Char.isDigit_iff_toNat.1 h).2
  rw [Char.utf8Size_eq_one_iff, UInt32.le_iff_toNat_le]
  show c.toNat ≤ 127
  -- the code points of digits lie below 128
  have : '9'.toNat = 57 := by decide
  omega

/-- Every exponent starts with one that has a single digit, which takes up at most three bytes. -/
theorem Exponent.exists_short (e : Exponent) :
    ∃ short : Exponent, short.chars <+: e.chars ∧ Text.byteLength short.chars ≤ 3 := by
  obtain ⟨mark, sign, digits, hmark, hsign, hne, hdigits⟩ := e
  -- the first of the digits is enough for an exponent
  obtain ⟨d, ds, rfl⟩ := List.exists_cons_of_ne_nil hne
  have hd : d.isDigit = true := hdigits d List.mem_cons_self
  refine ⟨⟨mark, sign, [d], hmark, hsign, List.cons_ne_nil d [], by simpa using hd⟩, ?_, ?_⟩
  · exact ⟨ds, by simp [chars]⟩
  · have hmarkSize : mark.utf8Size = 1 := by
      rcases hmark with rfl | rfl <;> decide
    have hsignSize : Text.byteLength sign.toList ≤ 1 := by
      cases sign with
      | none => simp
      | some s =>
        have hs := hsign s rfl
        simp only [isSign, Bool.or_eq_true, decide_eq_true_eq] at hs
        rcases hs with rfl | rfl <;> decide
    simp only [chars, Text.byteLength_cons, Text.byteLength_append, Text.byteLength_nil,
      utf8Size_of_isDigit hd, hmarkSize]
    omega

/-- Three bytes tell whether a number goes on. -/
theorem Number.Ends.append {n : Number} {rest : List Char} (h : n.Ends rest)
    (hlong : 3 ≤ Text.byteLength rest) (more : List Char) : n.Ends (rest ++ more) := by
  -- what follows is not empty, so all that has to stop has stopped before the end
  have hne : rest ≠ [] := Text.ne_nil_of_byteLength_pos (by omega)
  constructor
  · exact h.1.append hne more
  · intro hnone
    obtain ⟨hpoint, hexponent⟩ := h.2 hnone
    constructor
    · intro hfraction
      exact (hpoint hfraction).append hne more
    · intro e he
      -- a short exponent would have been there before
      obtain ⟨short, hshort, hthree⟩ := e.exists_short
      exact hexponent short (Text.isPrefix_of_byteLength_le (hshort.trans he) (by omega))

/-- Whether lexemes of the rule lack their end. -/
def Rule.lacksEnd : Rule → Bool
  | unterminatedComment | unterminatedLiteral => true
  | whitespace | comment | keyword | identifier | operator | constant | literal | punctuator
  | unrecognised => false

/-- Behind what lacks its end there is nothing. -/
theorem Rule.Fits.rest_eq_nil {rule : Rule} {before : Option Char} {lexeme rest : List Char}
    (h : rule.Fits before lexeme rest) (hlacks : rule.lacksEnd = true) : rest = [] := by
  cases rule with
  | unterminatedComment | unterminatedLiteral => exact h.2
  | whitespace | comment | keyword | identifier | operator | constant | literal | punctuator
  | unrecognised => exact nomatch hlacks

/-- There is some text, and it tells whether a number goes on into it, whatever comes behind. -/
def Settles (rest : List Char) : Prop :=
  rest ≠ [] ∧ ∀ (n : Number) (more : List Char), n.Ends rest → n.Ends (rest ++ more)

theorem settles_of_three_le {rest : List Char} (hlong : 3 ≤ Text.byteLength rest) :
    Settles rest :=
  ⟨Text.ne_nil_of_byteLength_pos (by omega), fun _ more hends => hends.append hlong more⟩

/-- A character that no number goes on with tells it, too, however near it stands. -/
theorem settles_of_mem {c : Char} {rest : List Char} (hmem : c ∈ rest)
    (hc : Rule.constant.continues c = false) : Settles rest := by
  refine ⟨List.ne_nil_of_mem hmem, fun n more hends => ?_⟩
  obtain ⟨front, back, rfl⟩ := List.append_of_mem hmem
  -- up to the character both texts are the same, and at it the number has ended
  rw [List.append_assoc]
  exact hends.replace (stops_cons.2 hc)

theorem Rule.Fits.append {rule : Rule} {before : Option Char} {lexeme rest : List Char}
    (h : rule.Fits before lexeme rest) (hsettles : Settles rest) (more : List Char) :
    rule.Fits before lexeme (rest ++ more) := by
  -- what has ended before the end of the text stays so, and only a number looks further
  have hne : rest ≠ [] := hsettles.1
  cases rule with
  | whitespace => exact ⟨h.1, h.2.1, h.2.2.append hne more⟩
  | comment => exact h.imp_left fun hline => ⟨hline.1, hline.2.append hne more⟩
  | unterminatedComment => exact absurd h.2 hne
  | keyword => exact ⟨h.1, h.2.1, h.2.2.append hne more⟩
  | identifier => exact ⟨h.1, h.2.append hne more⟩
  | operator => exact ⟨h.1, h.2.append hne more⟩
  | constant =>
    obtain ⟨n, hn, hends⟩ := h
    exact ⟨n, hn, hsettles.2 n more hends⟩
  | literal => exact h
  | unterminatedLiteral => exact absurd h.2 hne
  | punctuator => exact h
  | unrecognised => exact h

theorem Rule.Unclaimed.append {rule : Rule} {before : Option Char} {lexeme rest : List Char}
    (h : rule.Unclaimed before lexeme rest) (hne : rest ≠ []) (more : List Char) :
    rule.Unclaimed before lexeme (rest ++ more) := by
  cases rule with
  | operator => exact fun hslash => (h hslash).append hne more
  | punctuator => exact fun hpoint => (h hpoint).append hne more
  | whitespace | comment | unterminatedComment | keyword | identifier | constant | literal
  | unterminatedLiteral | unrecognised => exact h

/-- A lexeme with enough behind it is found again in a longer text. -/
theorem firstRule?_append {before : Option Char} {rule : Rule} {lexeme rest : List Char}
    (h : firstRule? before (lexeme ++ rest) = some (rule, lexeme.length))
    (hsettles : Settles rest) (more : List Char) :
    firstRule? before (lexeme ++ (rest ++ more)) = some (rule, lexeme.length) := by
  obtain ⟨hfits, hfree⟩ := firstRule?_append_iff.1 h
  exact firstRule?_append_iff.2 ⟨hfits.append hsettles more, hfree.append hsettles.1 more⟩

end Grammar

/-! ## A whole run -/

/-- Pieces stand behind each other, so none ends before the place that they start from. -/
theorem le_stop_of_mem_place {offset : Nat} {pieces : List Piece} :
    ∀ m ∈ place offset pieces, offset ≤ m.stop := by
  intro m hm
  have := Scan.le_start_of_mem_place m hm
  rw [Match.stop]
  omega

/-- Nor does any end behind the place that they end at together. -/
theorem stop_le_of_mem_place {offset : Nat} {pieces : List Piece} :
    ∀ m ∈ place offset pieces, m.stop ≤ offset + Text.byteLength (lexemes pieces) := by
  induction pieces generalizing offset with
  | nil => exact nofun
  | cons piece pieces ih =>
    intro m hm
    rw [lexemes_cons, Text.byteLength_append, ← Nat.add_assoc]
    rw [place, List.mem_cons] at hm
    rcases hm with rfl | hm
    · -- the first piece ends where the others start
      exact Nat.le_add_right _ _
    · exact ih m hm

/-- The run of a longer text starts with the pieces that end three bytes before the end of the
shorter one. -/
theorem Run.append_prefix {before : Option Char} {cs : List Char} {pieces : List Piece}
    (h : Run before cs pieces) (more : List Char) :
    ∃ others, Run before (cs ++ more) others ∧ ∀ offset,
      ((place offset pieces).filter fun m => m.stop + 3 ≤ offset + Text.byteLength cs) <+:
        place offset others := by
  induction h with
  | @nil before =>
    obtain ⟨others, hothers⟩ := exists_run before more
    exact ⟨others, hothers, fun offset => List.nil_prefix⟩
  | @cons before rule lexeme rest pieces hfirst hrest ih =>
    by_cases hlong : 3 ≤ Text.byteLength rest
    · -- the piece is found again, and the rest of the run is that of the rest of the text
      obtain ⟨others, hothers, hprefix⟩ := ih
      have hagain := Grammar.firstRule?_append hfirst (Grammar.settles_of_three_le hlong) more
      refine ⟨⟨rule, lexeme⟩ :: others, ?_, fun offset => ?_⟩
      · rw [List.append_assoc]
        exact .cons hagain hothers
      · have hends : (⟨rule, offset, lexeme⟩ : Match).stop + 3 ≤
            offset + Text.byteLength (lexeme ++ rest) := by
          simp only [Match.stop, Text.byteLength_append]
          omega
        rw [place, place, List.filter_cons_of_pos (by simpa using hends), List.cons_prefix_cons]
        refine ⟨rfl, ?_⟩
        have := hprefix (offset + Text.byteLength lexeme)
        rwa [Nat.add_assoc, ← Text.byteLength_append] at this
    · -- neither this piece nor a later one ends early enough
      obtain ⟨others, hothers⟩ := exists_run before (lexeme ++ rest ++ more)
      refine ⟨others, hothers, fun offset => ?_⟩
      rw [List.filter_eq_nil_iff.2]
      · exact List.nil_prefix
      · -- the pieces from this one on end where `lexeme` ends, or later
        intro m hm
        have hstop : offset + Text.byteLength lexeme ≤ m.stop := by
          rw [place, List.mem_cons] at hm
          rcases hm with rfl | hm
          · exact Nat.le_refl _
          · exact le_stop_of_mem_place m hm
        rw [Text.byteLength_append, decide_eq_true_eq]
        omega

/-- What lacks its end takes all that is left of the text. -/
theorem Run.stop_of_lacksEnd {before : Option Char} {cs : List Char} {pieces : List Piece}
    (h : Run before cs pieces) (offset : Nat) :
    ∀ m ∈ place offset pieces, m.rule.lacksEnd = true →
      m.stop = offset + Text.byteLength cs := by
  induction h generalizing offset with
  | nil => exact nofun
  | @cons before rule lexeme rest pieces hfirst hrest ih =>
    intro m hm hrule
    rw [place, List.mem_cons] at hm
    rcases hm with rfl | hm
    · have hnil := (Grammar.firstRule?_append_iff.1 hfirst).1.rest_eq_nil hrule
      simp [Match.stop, hnil]
    · rw [ih _ m hm hrule, Text.byteLength_append, Nat.add_assoc]

/-! ## Tokens and diagnostics -/

/-- The byte at which a stray character ends.  The other problems have no such byte. -/
def Diagnostic.strayStop? (diagnostic : Diagnostic) : Option Nat :=
  match diagnostic.problem with
  | .unrecognisedCharacter character => some (diagnostic.position + character.utf8ByteSize)
  | .unterminatedComment | .unterminatedLiteral | .noInputSelected | .fileRead _ _ => none

/-- A token ends where its match ends. -/
theorem tokens_filter_stop (text : String) (p : Nat → Bool) :
    (scan text).tokens.filter (fun token => p token.span.stop) =
      ((allMatches text).filter fun m => p m.stop).filterMap Match.token? := by
  show ((allMatches text).filterMap Match.token?).filter _ = _
  rw [List.filter_filterMap, List.filterMap_filter]
  congr 1
  -- what becomes of a match is looked at rule by rule
  funext m
  unfold Match.token?
  cases m.rule.action with
  | emit kind => by_cases h : p m.stop <;> simp [h]
  | skip kind => simp
  | diagnose fault => simp

/-- A stray character ends where its match ends, and what lacks its end does not end before the
text does. -/
theorem diagnostics_filter_strayStop? (text : String) :
    (scan text).diagnostics.filter
        (·.strayStop?.any fun stop => stop + 3 ≤ text.utf8ByteSize) =
      ((allMatches text).filter fun m => m.stop + 3 ≤ text.utf8ByteSize).filterMap
        Match.diagnostic? := by
  show ((allMatches text).filterMap Match.diagnostic?).filter _ = _
  rw [List.filter_filterMap, List.filterMap_filter]
  apply List.filterMap_congr
  intro m hm
  obtain ⟨pieces, hrun, hall⟩ := exists_run_text text
  -- the two rules for what lacks its end are kept out on both sides
  have hend : m.rule.lacksEnd = true → ¬ m.stop + 3 ≤ text.utf8ByteSize := by
    intro hrule
    have := hrun.stop_of_lacksEnd 0 m (hall ▸ hm) hrule
    rw [Text.byteLength_toList] at this
    omega
  unfold Match.diagnostic?
  cases hrule : m.rule with
  | unterminatedComment =>
    simp [Rule.action, Grammar.Fault.problem, Diagnostic.strayStop?, hend (hrule ▸ rfl)]
  | unterminatedLiteral =>
    simp [Rule.action, Grammar.Fault.problem, Diagnostic.strayStop?, hend (hrule ▸ rfl)]
  | unrecognised =>
    -- the text of the problem is the stray character, as long as its match
    have hstop : m.start + (String.ofList m.lexeme).utf8ByteSize = m.stop := by
      rw [Text.utf8ByteSize_ofList, Match.stop]
    by_cases h : m.stop + 3 ≤ text.utf8ByteSize <;>
      simp [Rule.action, Grammar.Fault.problem, Diagnostic.strayStop?, hstop, h]
  | whitespace | comment | keyword | identifier | operator | constant | literal | punctuator =>
    simp [Rule.action]

/-- Three bytes of lookahead are enough.  Of a text that goes on in whatever way, the matches that
end three bytes before the end of the known part are known: they are the first matches of the
longer text.  So are the tokens that end there, and the stray characters reported. -/
theorem allMatches_append_prefix (text more : String) :
    ((allMatches text).filter fun m => m.stop + 3 ≤ text.utf8ByteSize) <+:
      allMatches (text ++ more) ∧
    ((scan text).tokens.filter fun token => token.span.stop + 3 ≤ text.utf8ByteSize) <+:
      (scan (text ++ more)).tokens ∧
    ((scan text).diagnostics.filter
        (·.strayStop?.any fun stop => stop + 3 ≤ text.utf8ByteSize)) <+:
      (scan (text ++ more)).diagnostics := by
  obtain ⟨pieces, hrun, hall⟩ := exists_run_text text
  obtain ⟨others, hothers, hprefix⟩ := hrun.append_prefix more.toList
  have hmatches : ((allMatches text).filter fun m => m.stop + 3 ≤ text.utf8ByteSize) <+:
      allMatches (text ++ more) := by
    have hfound : allMatches (text ++ more) = place 0 others := by
      rw [← String.toList_append] at hothers
      exact hothers.found_eq 0
    have := hprefix 0
    rwa [Nat.zero_add, Text.byteLength_toList, ← hall, ← hfound] at this
  refine ⟨hmatches, ?_, ?_⟩
  · -- filtering tokens by their end is filtering matches by theirs
    rw [tokens_filter_stop text fun stop => stop + 3 ≤ text.utf8ByteSize]
    exact hmatches.filterMap Match.token?
  · rw [diagnostics_filter_strayStop?]
    exact hmatches.filterMap Match.diagnostic?

-- two bytes are not enough: `e+` does not tell whether the number goes on
example : (allMatches "1e+").map Match.stop = [1, 2, 3] := by decide +kernel

example : (allMatches "1e+5").map Match.stop = [4] := by decide +kernel

end TokenCensus

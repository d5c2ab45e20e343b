import TokenCensus.Grammar.Rule
import TokenCensus.Proofs.Number

/-!
# Which rule wins

`firstRule?` tries the rules in their order and takes the first that fits.  Here the winner is told
from its lexeme and what follows: a rule wins where its lexeme fits and none of the few earlier
rules that can start with the same character has a claim to the place.

## Key results

- `firstRule?_eq_some_iff`: the winner fits, and the rules before it do not
- `firstRule?_append_iff`: the winner told from the language of its lexeme alone
-/

namespace TokenCensus.Grammar

/-! ## Classes of characters -/

theorem isWord_of_isDigit {c : Char} (h : c.isDigit = true) : isWord c = true := by
  simp [isWord, Char.isAlphanum, h]

theorem isWord_eq_false_of_isBlank {c : Char} (h : isBlank c = true) : isWord c = false := by
  simp only [isBlank, Bool.or_eq_true, decide_eq_true_eq] at h
  rcases h with ((((rfl | rfl) | rfl) | rfl) | rfl) | rfl <;> decide

/-- Letters, digits and the underscore are no blanks. -/
theorem isBlank_eq_false_of_isWord {c : Char} (h : isWord c = true) : isBlank c = false := by
  refine Bool.eq_false_iff.2 fun hblank => ?_
  rw [isWord_eq_false_of_isBlank hblank] at h
  exact nomatch h

/-- Letters and the underscore come behind the digits. -/
theorem toNat_lt_of_isWordStart {c : Char} (h : isWordStart c = true) :
    '9'.toNat < c.toNat := by
  -- the classes of letters, as ranges of codes
  delta isWordStart Char.isAlpha Char.isUpper Char.isLower at h
  simp only [Bool.or_eq_true, Bool.and_eq_true, decide_eq_true_eq, ge_iff_le,
    UInt32.le_iff_toNat_le, Char.toNat_val] at h
  rcases h with (hupper | hlower) | rfl
  · exact Nat.lt_of_lt_of_le (by decide) hupper.1
  · exact Nat.lt_of_lt_of_le (by decide) hlower.1
  · decide

theorem isDigit_eq_false_of_isWordStart {c : Char} (h : isWordStart c = true) :
    c.isDigit = false := by
  have hlt := toNat_lt_of_isWordStart h
  refine Bool.eq_false_iff.2 fun hdigit => ?_
  have hle := (Char.isDigit_iff_toNat.1 hdigit).2
  omega

namespace Rule

open Lexeme

/-! ## The language of each rule -/

/-- `rule` takes exactly `lexeme` off the front of `lexeme ++ rest`, behind `before`. -/
def Fits (rule : Rule) (before : Option Char) (lexeme rest : List Char) : Prop :=
  match rule with
  | whitespace => lexeme ≠ [] ∧ (∀ c ∈ lexeme, isBlank c = true) ∧ Stops isBlank rest
  | comment => IsLineComment lexeme ∧ Stops (· ≠ '\n') rest ∨ IsBlockComment lexeme
  | unterminatedComment => OpensComment lexeme ∧ rest = []
  | keyword => before.any isWord = false ∧ lexeme ∈ keywordSpellings ∧ Stops isWord rest
  | identifier => IsIdentifier lexeme ∧ Stops isWord rest
  | operator =>
    lexeme ∈ operatorSpellings ∧ Stops (fun c => operatorSpellings.contains (lexeme ++ [c])) rest
  | constant => ∃ n : Number, n.chars = lexeme ∧ n.Ends rest
  | literal => IsLiteral lexeme
  | unterminatedLiteral => OpensLiteral lexeme ∧ rest = []
  | punctuator => ∃ c ∈ punctuators, lexeme = [c]
  | unrecognised => ∃ c, lexeme = [c]

theorem lexemeLength?_recognises (rule : Rule) (before : Option Char) :
    Recognises (rule.lexemeLength? before) (rule.Fits before) := by
  cases rule with
  | whitespace => exact whitespace?_recognises
  | comment => exact comment?_recognises
  | unterminatedComment => exact unterminatedComment?_recognises
  | keyword => exact keyword?_recognises before
  | identifier => exact identifier?_recognises
  | operator => exact operator?_recognises
  | constant => exact constant?_recognises
  | literal => exact literal?_recognises
  | unterminatedLiteral => exact unterminatedLiteral?_recognises
  | punctuator => exact punctuator?_recognises
  | unrecognised => exact anyCharacter?_recognises

/-! ## First characters -/

/-- Whether a lexeme of the rule can start with `c`. -/
def starts : Rule → Char → Bool
  | whitespace, c => isBlank c
  | comment, c | unterminatedComment, c => c = '/'
  | keyword, c | identifier, c => isWordStart c
  | operator, c => operatorSpellings.contains [c]
  | constant, c => c.isDigit || c = '.' || isSign c
  | literal, c | unterminatedLiteral, c => c = '"'
  | punctuator, c => c ∈ punctuators
  | unrecognised, _ => true

theorem isWordStart_of_mem_keywordSpellings {c : Char} {cs : List Char}
    (h : c :: cs ∈ keywordSpellings) : isWordStart c = true := by
  have hall : ∀ word ∈ keywordSpellings, word.head?.all isWordStart = true := by decide
  exact hall _ h

theorem singleton_mem_operatorSpellings {c : Char} {cs : List Char}
    (h : c :: cs ∈ operatorSpellings) : [c] ∈ operatorSpellings :=
  take_mem_operatorSpellings _ h 1 (by omega) (by omega)

/-- A lexeme is not empty. -/
theorem Fits.ne_nil {rule : Rule} {before : Option Char} {lexeme rest : List Char}
    (h : rule.Fits before lexeme rest) : lexeme ≠ [] := by
  have hpos := lexemeLength?_pos ((rule.lexemeLength?_recognises before).eq_some h)
  exact List.length_pos_iff.1 hpos

private theorem starts_number (n : Number) : ∀ c ∈ n.chars.head?, constant.starts c = true := by
  intro c hc
  -- the first digit or the point, which a number without a sign starts with
  obtain ⟨d, ds, hds, hd⟩ := n.mantissa.exists_head
  rw [starts, Bool.or_eq_true, Bool.or_eq_true]
  cases hsign : n.sign with
  | some s =>
    simp only [Number.chars, hsign, Option.toList_some, List.cons_append, List.head?_cons,
      Option.mem_some_iff] at hc
    exact .inr (hc ▸ n.sign_ok s hsign)
  | none =>
    simp only [Number.chars, hsign, hds, Option.toList_none, List.nil_append, List.cons_append,
      List.head?_cons, Option.mem_some_iff] at hc
    exact .inl (hc ▸ hd.imp_right decide_eq_true)

theorem starts_of_fits {rule : Rule} {before : Option Char} {c : Char} {lexeme rest : List Char}
    (h : rule.Fits before (c :: lexeme) rest) : rule.starts c = true := by
  cases rule with
  | whitespace => exact h.2.1 c (by simp)
  | comment =>
    rcases h with ⟨⟨body, hbody, -⟩, -⟩ | ⟨body, hbody, -⟩
    · simp [starts, (List.cons.inj hbody).1]
    · simp [starts, (List.cons.inj hbody).1]
  | unterminatedComment =>
    obtain ⟨⟨body, hbody⟩, -⟩ := h
    simp [starts, ← (List.cons.inj hbody).1]
  | keyword => exact isWordStart_of_mem_keywordSpellings h.2.1
  | identifier =>
    obtain ⟨⟨d, word, hword, hd, -⟩, -⟩ := h
    rw [(List.cons.inj hword).1]
    exact hd
  | operator => exact List.contains_iff_mem.2 (singleton_mem_operatorSpellings h.1)
  | constant =>
    obtain ⟨n, hn, -⟩ := h
    exact starts_number n c (by simp [hn])
  | literal =>
    obtain ⟨body, hbody, -⟩ := h
    simp [starts, (List.cons.inj hbody).1]
  | unterminatedLiteral =>
    obtain ⟨⟨body, hbody⟩, -⟩ := h
    simp [starts, ← (List.cons.inj hbody).1]
  | punctuator =>
    obtain ⟨d, hd, heq⟩ := h
    simpa [starts, (List.cons.inj heq).1] using hd
  | unrecognised => rfl

/-- A rule does not fit where its lexemes cannot start. -/
theorem lexemeLength?_eq_none_of_starts {rule : Rule} {before : Option Char} {c : Char}
    {cs : List Char} (h : rule.starts c = false) : rule.lexemeLength? before (c :: cs) = none := by
  rw [(rule.lexemeLength?_recognises before).eq_none_iff]
  intro lexeme rest happ hfits
  -- a lexeme that fits would be at least one character, which is `c`
  obtain ⟨d, ds, rfl⟩ := List.exists_cons_of_ne_nil hfits.ne_nil
  have hstarts := starts_of_fits hfits
  rw [(List.cons.inj happ).1, h] at hstarts
  exact nomatch hstarts

/-! ## Rules that come first -/

/-- The rules that are tried before `rule`. -/
def earlier (rule : Rule) : List Rule := all.takeWhile (· ≠ rule)

theorem all_eq_append (rule : Rule) : ∃ later, all = rule.earlier ++ rule :: later := by
  cases rule <;> exact ⟨_, rfl⟩

theorem earlier_eq_of_all_eq {rule : Rule} {front later : List Rule}
    (h : all = front ++ rule :: later) : rule.earlier = front := by
  -- no rule is tried twice
  have hnodup : (front ++ rule :: later).Nodup := h ▸ (by decide)
  have hnot : ∀ other ∈ front, decide (other ≠ rule) = true := by
    intro other hother
    rw [decide_eq_true_eq]
    exact fun heq => (List.nodup_append.1 hnodup).2.2 other hother rule (by simp) heq
  rw [earlier, h, List.takeWhile_append_of_pos hnot]
  simp

end Rule

/-- The winner fits, and the rules before it do not. -/
theorem firstRule?_eq_some_iff {before : Option Char} {rest : List Char} {rule : Rule} {n : Nat} :
    firstRule? before rest = some (rule, n) ↔
      rule.lexemeLength? before rest = some n ∧
        ∀ other ∈ rule.earlier, other.lexemeLength? before rest = none := by
  rw [firstRule?, List.findSome?_eq_some_iff]
  constructor
  · intro h
    -- the rules in front of the one that is found are those before it in the order
    obtain ⟨front, found, later, hall, hfound, hfront⟩ := h
    obtain ⟨k, hk, heq⟩ := Option.map_eq_some_iff.1 hfound
    obtain ⟨rfl, rfl⟩ := Prod.mk.inj heq
    refine ⟨hk, fun other hother => ?_⟩
    rw [Rule.earlier_eq_of_all_eq hall] at hother
    simpa using hfront other hother
  · intro h
    obtain ⟨hrule, hearlier⟩ := h
    obtain ⟨later, hall⟩ := rule.all_eq_append
    refine ⟨_, rule, later, hall, by simp [hrule], ?_⟩
    intro other hother
    rw [hearlier other hother]
    rfl

theorem firstRule?_le_length {before : Option Char} {rest : List Char} {rule : Rule} {n : Nat}
    (h : firstRule? before rest = some (rule, n)) : n ≤ rest.length :=
  (rule.lexemeLength?_recognises before).le_length (firstRule?_eq_some_iff.1 h).1

/-! ## What an earlier rule would need -/

namespace Lexeme

theorem whitespace?_ne_none {c : Char} (h : isBlank c = true) (cs : List Char) :
    whitespace? (c :: cs) ≠ none := by
  simp [whitespace?, nonzero?, runLength, h]

theorem identifier?_ne_none {c : Char} (h : isWordStart c = true) (cs : List Char) :
    identifier? (c :: cs) ≠ none := by
  simp [identifier?, h]

theorem operator?_ne_none {c : Char} (h : [c] ∈ operatorSpellings) (cs : List Char) :
    operator? (c :: cs) ≠ none := by
  rw [operator?, Ne, List.max?_eq_none_iff, List.map_eq_nil_iff, List.filter_eq_nil_iff]
  exact fun hno => hno [c] h (by simp)

theorem mantissa?_ne_none {c : Char} (h : c.isDigit = true) (cs : List Char) :
    mantissa? (c :: cs) ≠ none := by
  have hpos : 0 < runLength Char.isDigit (c :: cs) := by simp [runLength, h]
  dsimp only [mantissa?]
  split
  · rw [if_neg (by omega)]
    exact Option.some_ne_none _
  · rw [nonzero?, if_neg (by omega)]
    exact Option.some_ne_none _

theorem constant?_ne_none {c : Char} (h : c.isDigit = true) (cs : List Char) :
    constant? (c :: cs) ≠ none := by
  -- a digit is no sign, so the number starts with it
  have hsign : signLength (c :: cs) = 0 := by
    have := isSign_of_isDigit h
    rw [isSign] at this
    simp [signLength, this]
  simp [constant?, hsign, mantissa?_ne_none h]

/-- A point starts a number exactly when a digit follows. -/
theorem constant?_point_eq_none_iff {rest : List Char} :
    constant? ('.' :: rest) = none ↔ Stops Char.isDigit rest := by
  have hrun : runLength Char.isDigit ('.' :: rest) = 0 := by simp [runLength]
  have hstops : runLength Char.isDigit rest = 0 ↔ Stops Char.isDigit rest := by
    cases rest with
    | nil => simp [runLength]
    | cons c cs => cases hc : c.isDigit <;> simp [runLength, hc]
  rw [← hstops]
  simp [constant?, signLength, mantissa?, hrun]

end Lexeme

namespace Rule

open Lexeme

/-- Whether a lexeme other than a stray character can start with `c`: the alphabet of the
language. -/
def isKnown (c : Char) : Bool :=
  isBlank c || isWord c || operatorSpellings.contains [c] || c = '"' || c ∈ punctuators

/-- A character outside the alphabet of the language belongs to no word. -/
theorem isWord_eq_false_of_unknown {c : Char} (h : isKnown c = false) : isWord c = false := by
  simp only [isKnown, Bool.or_eq_false_iff] at h
  exact h.1.1.1.2

/-- No earlier rule has a claim to `lexeme`, which fits `rule`.  Only rules that can start with
the same character can have one. -/
def Unclaimed (rule : Rule) (before : Option Char) (lexeme rest : List Char) : Prop :=
  match rule with
  -- the comment is not closed
  | unterminatedComment => ∀ body, lexeme = '/' :: '*' :: body → ¬ ['*', '/'] <:+: body
  | identifier => before.any isWord = false → lexeme ∉ keywordSpellings
  -- a slash does not open a comment
  | operator => lexeme = ['/'] → Stops (fun c => c = '/' || c = '*') rest
  -- a sign is an operator
  | constant => Stops isSign lexeme
  -- the literal is not closed
  | unterminatedLiteral =>
    ∀ body back, lexeme = '"' :: (body ++ '"' :: back) → ¬ LiteralBody body
  -- a point does not start a number
  | punctuator => lexeme = ['.'] → Stops Char.isDigit rest
  | unrecognised => ∀ c ∈ lexeme, isKnown c = false
  | whitespace | comment | keyword | literal => True

/-- A character that can start a lexeme does start one, whatever follows. -/
private theorem exists_ne_none_of_isKnown {c : Char} (h : isKnown c = true) (before : Option Char)
    (cs : List Char) :
    ∃ other ∈ unrecognised.earlier, other.lexemeLength? before (c :: cs) ≠ none := by
  simp only [isKnown, isWord, Char.isAlphanum, Bool.or_eq_true, decide_eq_true_eq,
    List.contains_iff_mem] at h
  -- class by class, a rule that the character is enough for
  rcases h with (((hblank | ((halpha | hdigit) | hscore)) | hop) | rfl) | hpunct
  · exact ⟨whitespace, by decide, whitespace?_ne_none hblank cs⟩
  · exact ⟨identifier, by decide, identifier?_ne_none (by simp [isWordStart, halpha]) cs⟩
  · exact ⟨constant, by decide, constant?_ne_none hdigit cs⟩
  · exact ⟨identifier, by decide, identifier?_ne_none (by simp [isWordStart, hscore]) cs⟩
  · exact ⟨operator, by decide, operator?_ne_none hop cs⟩
  · exact ⟨unterminatedLiteral, by decide, by simp [lexemeLength?, unterminatedLiteral?]⟩
  · exact ⟨punctuator, by decide, by simp [lexemeLength?, punctuator?, hpunct]⟩

theorem mem_operatorSpellings_of_isSign {c : Char} (h : isSign c = true) :
    [c] ∈ operatorSpellings := by
  simp only [isSign, Bool.or_eq_true, decide_eq_true_eq] at h
  rcases h with rfl | rfl <;> decide

/-- A rule that nothing earlier has beaten is unclaimed. -/
theorem unclaimed_of_earlier {rule : Rule} {before : Option Char} {lexeme rest : List Char}
    (hfits : rule.Fits before lexeme rest)
    (hearlier : ∀ other ∈ rule.earlier, other.lexemeLength? before (lexeme ++ rest) = none) :
    rule.Unclaimed before lexeme rest := by
  cases rule with
  | whitespace | comment | keyword | literal => trivial
  | unterminatedComment =>
    -- a comment that is closed would have been found as a comment
    intro body hbody
    subst hbody
    have hopen := hearlier comment (by decide)
    rw [hfits.2, List.append_nil] at hopen
    exact closeComment?_eq_none_iff.1 hopen
  | identifier =>
    -- a reserved word would have been found as one
    intro hbefore hmem
    have hnone := hearlier keyword (by decide)
    have hsome := (keyword?_recognises before).eq_some ⟨hbefore, hmem, hfits.2⟩
    exact absurd hnone (by simp [lexemeLength?, hsome])
  | operator =>
    -- the lexeme is a slash, and two slashes or a slash and a star would be a comment
    intro heq
    subst heq
    cases rest with
    | nil => simp
    | cons c cs =>
      have hclosed := hearlier comment (by decide)
      have hopen := hearlier unterminatedComment (by decide)
      rw [stops_cons, Bool.or_eq_false_iff, decide_eq_false_iff_not, decide_eq_false_iff_not]
      refine ⟨?_, ?_⟩
      · intro heq
        subst heq
        simp [lexemeLength?, comment?] at hclosed
      · intro heq
        subst heq
        simp [lexemeLength?, unterminatedComment?] at hopen
  | constant =>
    -- a sign at the start is an operator already
    obtain ⟨c, cs, rfl⟩ := List.exists_cons_of_ne_nil hfits.ne_nil
    have hnone := hearlier operator (by decide)
    refine stops_cons.2 (Bool.eq_false_iff.2 fun hsign => ?_)
    exact operator?_ne_none (mem_operatorSpellings_of_isSign hsign) _ hnone
  | unterminatedLiteral =>
    -- so would a literal that is closed
    intro body back hlexeme hbody
    subst hlexeme
    have hnone := (literal.lexemeLength?_recognises before).eq_none_iff.1
      (hearlier literal (by decide))
    exact hnone ('"' :: (body ++ ['"'])) (back ++ rest) (by simp) ⟨body, rfl, hbody⟩
  | punctuator =>
    -- a point with a digit behind it would have been found as a number
    intro heq
    subst heq
    exact constant?_point_eq_none_iff.1 (hearlier constant (by decide))
  | unrecognised =>
    -- a character that is known would have been found by an earlier rule
    obtain ⟨c, rfl⟩ := hfits
    intro d hd
    obtain rfl := List.mem_singleton.1 hd
    refine Bool.eq_false_iff.2 fun hknown => ?_
    obtain ⟨other, hother, hne⟩ := exists_ne_none_of_isKnown hknown before rest
    exact hne (hearlier other hother)

/-! ## Where the first character decides -/

/-- The rules that cannot start with `c` do not fit. -/
private theorem none_of_starts {rules : List Rule} {before : Option Char} {c : Char}
    {cs : List Char} (h : ∀ other ∈ rules, other.starts c = false) :
    ∀ other ∈ rules, other.lexemeLength? before (c :: cs) = none :=
  fun other hother => lexemeLength?_eq_none_of_starts (h other hother)

theorem isKnown_of_starts {other : Rule} (hother : other ∈ unrecognised.earlier) {c : Char}
    (h : other.starts c = true) : isKnown c = true := by
  have hword : ∀ {c}, isWordStart c = true → isKnown c = true := by
    intro c hc
    simp [isKnown, isWord_of_isWordStart hc]
  cases other with
  | unrecognised => exact absurd hother (by decide)
  | whitespace => simp [isKnown, show isBlank c = true from h]
  | comment | unterminatedComment =>
    obtain rfl : c = '/' := of_decide_eq_true h
    decide
  | keyword | identifier => exact hword h
  | operator => simp [isKnown, List.contains_iff_mem.1 h]
  | constant =>
    simp only [starts, Bool.or_eq_true, decide_eq_true_eq] at h
    rcases h with (hdigit | rfl) | hsign
    · simp [isKnown, isWord, Char.isAlphanum, hdigit]
    · decide
    · simp [isKnown, mem_operatorSpellings_of_isSign hsign]
  | literal | unterminatedLiteral =>
    obtain rfl : c = '"' := of_decide_eq_true h
    decide
  | punctuator => simp [isKnown, show c ∈ punctuators from of_decide_eq_true h]

theorem starts_eq_false_of_isWordStart {c : Char} (hc : isWordStart c = true) :
    ∀ other ∈ keyword.earlier, other.starts c = false := by
  -- only white space and comments come before words
  have hblank : isBlank c = false := isBlank_eq_false_of_isWord (isWord_of_isWordStart hc)
  have hslash : c ≠ '/' := by
    intro heq
    subst heq
    exact absurd hc (by decide)
  simp [earlier, all, starts, hblank, hslash]

theorem starts_eq_false_of_isDigit {c : Char} (hc : c.isDigit = true) :
    ∀ other ∈ constant.earlier, other.starts c = false := by
  have hblank : isBlank c = false := isBlank_eq_false_of_isWord (isWord_of_isDigit hc)
  have hword : isWordStart c = false := Bool.eq_false_iff.2 fun hw => by
    rw [isDigit_eq_false_of_isWordStart hw] at hc
    exact nomatch hc
  -- no operator holds a digit
  have hop : [c] ∉ operatorSpellings := fun hmem => by
    have hno : ∀ operator ∈ operatorSpellings, operator.any Char.isDigit = false := by decide
    have := hno [c] hmem
    simp [hc] at this
  have hslash : c ≠ '/' := by
    intro heq
    subst heq
    exact absurd hc (by decide)
  simp [earlier, all, starts, hblank, hslash, hword, hop]

/-! ## Where it does not -/

/-- A slash that no comment opens on leaves no comment. -/
private theorem comments_eq_none (before : Option Char) {cs : List Char}
    (h : ∀ c tail, cs = '/' :: c :: tail → c ≠ '/' ∧ c ≠ '*') :
    comment.lexemeLength? before cs = none ∧
      unterminatedComment.lexemeLength? before cs = none := by
  refine ⟨?_, ?_⟩
  · -- both forms of a comment need a second character that is ruled out
    dsimp only [lexemeLength?]
    unfold comment?
    split
    · exact absurd rfl (h _ _ rfl).1
    · exact absurd rfl (h _ _ rfl).2
    · rfl
  · dsimp only [lexemeLength?]
    unfold unterminatedComment?
    split
    · exact absurd rfl (h _ _ rfl).2
    · rfl

/-- Behind a slash that is an operator or starts one, no comment opens. -/
private theorem operator_opens_no_comment {lexeme rest : List Char}
    (hmem : lexeme ∈ operatorSpellings)
    (hslash : lexeme = ['/'] → Stops (fun c => c = '/' || c = '*') rest) {c : Char}
    {tail : List Char} (happ : lexeme ++ rest = '/' :: c :: tail) : c ≠ '/' ∧ c ≠ '*' := by
  have hne : ∀ operator ∈ operatorSpellings, operator ≠ [] := by decide
  have hno : ∀ operator ∈ operatorSpellings,
      ¬ ['/', '/'] <+: operator ∧ ¬ ['/', '*'] <+: operator := by
    decide
  -- the slash is the first character of the operator
  obtain ⟨d, ds, rfl⟩ := List.exists_cons_of_ne_nil (hne lexeme hmem)
  obtain ⟨rfl, htail⟩ := List.cons.inj happ
  cases ds with
  -- the operator is the slash, and what comes behind it is the condition
  | nil =>
    obtain rfl : rest = c :: tail := htail
    simpa using hslash rfl
  -- no operator starts like a comment
  | cons e es =>
    obtain ⟨rfl, -⟩ := List.cons.inj htail
    refine ⟨?_, ?_⟩
    · intro heq
      subst heq
      exact (hno _ hmem).1 ⟨es, rfl⟩
    · intro heq
      subst heq
      exact (hno _ hmem).2 ⟨es, rfl⟩

/-- Nothing earlier fits where a rule fits unclaimed. -/
theorem earlier_eq_none {rule : Rule} {before : Option Char} {lexeme rest : List Char}
    (hfits : rule.Fits before lexeme rest) (hfree : rule.Unclaimed before lexeme rest) :
    ∀ other ∈ rule.earlier, other.lexemeLength? before (lexeme ++ rest) = none := by
  -- the first character rules most of the earlier rules out
  obtain ⟨c, cs, rfl⟩ := List.exists_cons_of_ne_nil hfits.ne_nil
  have hstarts := starts_of_fits hfits
  cases rule with
  | whitespace => exact nofun
  | comment =>
    obtain rfl : c = '/' := of_decide_eq_true hstarts
    exact none_of_starts (by decide)
  | unterminatedComment =>
    -- of the rules before, only a closed comment can start with a slash
    obtain ⟨⟨body, hbody⟩, rfl⟩ := hfits
    rw [← hbody] at hfree ⊢
    have hopen : closeComment? 2 body = none := closeComment?_eq_none_iff.2 (hfree body rfl)
    intro other hother
    have hcases : ∀ other ∈ unterminatedComment.earlier,
        other = comment ∨ other.starts '/' = false := by decide
    rcases hcases other hother with rfl | hno
    · rw [List.append_nil]
      exact hopen
    · exact lexemeLength?_eq_none_of_starts hno
  | keyword => exact none_of_starts (starts_eq_false_of_isWordStart hstarts)
  | identifier =>
    -- of the rules before, only that for reserved words can take letters
    obtain ⟨⟨d, word, hword, hd, hds⟩, hrest⟩ := hfits
    have hall : ∀ e ∈ c :: cs, isWord e = true := by
      rw [hword]
      intro e he
      rcases List.mem_cons.1 he with rfl | he
      · exact isWord_of_isWordStart hd
      · exact hds e he
    intro other hother
    have hcases : ∀ other ∈ identifier.earlier, other = keyword ∨ other ∈ keyword.earlier := by
      decide
    rcases hcases other hother with rfl | hother
    · dsimp only [lexemeLength?, keyword?]
      -- it sees the same letters, and they are no reserved word
      rw [takeWhile_append_of_stops hall hrest]
      cases hbefore : before.any isWord with
      | true => rfl
      | false => simp [hfree hbefore]
    · exact none_of_starts (starts_eq_false_of_isWordStart hstarts) other hother
  | operator =>
    -- a slash leaves no comment, and the other operators do not start with one
    have hnone := comments_eq_none before fun d tail happ =>
      operator_opens_no_comment hfits.1 hfree happ
    have hcases : ∀ operator ∈ operatorSpellings, ∀ other ∈ Rule.operator.earlier,
        other = comment ∨ other = unterminatedComment ∨
          operator.head?.any other.starts = false := by
      decide
    intro other hother
    rcases hcases _ hfits.1 other hother with rfl | rfl | hno
    · exact hnone.1
    · exact hnone.2
    · exact lexemeLength?_eq_none_of_starts hno
  | constant =>
    -- without a sign it starts with a digit or with a point, and no rule before does
    have hsign : isSign c = false := stops_cons.1 hfree
    simp only [starts, Bool.or_eq_true, decide_eq_true_eq] at hstarts
    rcases hstarts with (hdigit | rfl) | h
    · exact none_of_starts (starts_eq_false_of_isDigit hdigit)
    · exact none_of_starts (by decide)
    · rw [hsign] at h
      exact nomatch h
  | literal =>
    obtain rfl : c = '"' := of_decide_eq_true hstarts
    exact none_of_starts (by decide)
  | unterminatedLiteral =>
    obtain rfl : c = '"' := of_decide_eq_true hstarts
    obtain ⟨-, rfl⟩ := hfits
    -- of the rules before, only a closed literal can start with a quote
    have hcases : ∀ other ∈ unterminatedLiteral.earlier,
        other = literal ∨ other.starts '"' = false := by decide
    intro other hother
    rcases hcases other hother with rfl | hno
    · refine (literal.lexemeLength?_recognises before).eq_none_iff.2 ?_
      intro lexeme back happ hliteral
      -- a quote that closes it is ruled out
      obtain ⟨body, rfl, hbody⟩ := hliteral
      refine hfree body back ?_ hbody
      simpa using happ.symm
    · exact lexemeLength?_eq_none_of_starts hno
  | punctuator =>
    obtain ⟨d, hd, heq⟩ := hfits
    obtain ⟨rfl, rfl⟩ := List.cons.inj heq
    have hcases : ∀ other ∈ punctuator.earlier, other = constant ∨
        punctuators.any other.starts = false := by
      decide
    have hpoint : punctuators.all (fun c => c = '.' || !constant.starts c) = true := by decide
    intro other hother
    by_cases hstart : other.starts c = true
    · obtain rfl : other = constant := by
        refine (hcases other hother).resolve_right fun hno => ?_
        exact List.any_eq_false.1 hno c hd hstart
      -- a point is the only punctuator that a number starts with
      obtain rfl : c = '.' := by
        have := List.all_eq_true.1 hpoint c hd
        rwa [hstart, Bool.not_true, Bool.or_false, decide_eq_true_eq] at this
      exact constant?_point_eq_none_iff.2 (hfree rfl)
    · exact lexemeLength?_eq_none_of_starts (Bool.eq_false_iff.2 hstart)
  | unrecognised =>
    -- a character that another rule can start with would be known
    refine none_of_starts fun other hother => Bool.eq_false_iff.2 fun hs => ?_
    have hunknown := hfree c (by simp)
    rw [isKnown_of_starts hother hs] at hunknown
    exact nomatch hunknown

end Rule

/-- The winner told from its lexeme and what follows. -/
theorem firstRule?_append_iff {before : Option Char} {lexeme rest : List Char} {rule : Rule} :
    firstRule? before (lexeme ++ rest) = some (rule, lexeme.length) ↔
      rule.Fits before lexeme rest ∧ rule.Unclaimed before lexeme rest := by
  rw [firstRule?_eq_some_iff]
  constructor
  · intro h
    obtain ⟨hlength, hearlier⟩ := h
    have hfits := (rule.lexemeLength?_recognises before).takes hlength
    exact ⟨hfits, Rule.unclaimed_of_earlier hfits hearlier⟩
  · intro h
    obtain ⟨hfits, hfree⟩ := h
    exact ⟨(rule.lexemeLength?_recognises before).eq_some hfits,
      Rule.earlier_eq_none hfits hfree⟩

end TokenCensus.Grammar

import TokenCensus.Proofs.Winner

/-!
# Changing what stands around a lexeme

A lexeme is found again after the text around it has changed, if the change is far enough away or
begins with a character that cannot continue it.  Of the text before it only one thing counts, and
only for reserved words: whether a word ends there.

A number is the reason why the change may lie further on than the next character.  Behind `1` the
scanner looks at `e+` before it knows that there is no exponent, so that `e+` must not be joined to
a digit.

## Key results

- `Rule.Fits.continues_of_mem`: what words, operators and numbers consist of
- `firstRule?_congr`: of the character before it, only whether it belongs to a word counts
- `firstRule?_replace`: a lexeme is found again in front of another tail
- `stops_isBlank_of_firstRule?`: what is not blank does not start with a blank
-/

namespace TokenCensus.Grammar

/-! ## Another tail -/

theorem Stops.replace {p : Char → Bool} {front tail tail' : List Char}
    (h : Stops p (front ++ tail)) (h' : front = [] → Stops p tail') :
    Stops p (front ++ tail') := by
  cases front with
  -- nothing is left in front, so only the new tail counts
  | nil => exact h' rfl
  | cons c cs => exact stops_cons.2 (stops_cons.1 h)

/-- Only the end of a text is followed by no character at all. -/
theorem eq_nil_of_stops_true {cs : List Char} (h : Stops (fun _ => true) cs) : cs = [] := by
  cases cs with
  | nil => rfl
  | cons c cs => exact nomatch stops_cons.1 h

/-- What consists of characters of `p` does not reach into a tail that starts with another. -/
theorem isPrefix_of_stops {p : Char → Bool} {xs front tail : List Char}
    (hxs : ∀ c ∈ xs, p c = true) (htail : Stops p tail) (h : xs <+: front ++ tail) :
    xs <+: front := by
  induction front generalizing xs with
  | nil =>
    cases xs with
    | nil => exact List.nil_prefix
    | cons x xs =>
      obtain ⟨ys, hys⟩ := h
      have hx := hxs x List.mem_cons_self
      -- the first character would be taken from the tail, which starts with another
      have hstop : p x = false := htail x (by rw [List.nil_append] at hys; simp [← hys])
      rw [hx] at hstop
      exact nomatch hstop
  | cons c front ih =>
    cases xs with
    | nil => exact List.nil_prefix
    | cons x xs =>
      rw [List.cons_append, List.cons_prefix_cons] at h
      have := ih (fun d hd => hxs d (List.mem_cons_of_mem x hd)) h.2
      exact List.cons_prefix_cons.2 ⟨h.1, this⟩

/-- Whether `c`, further on, can make a lexeme of the rule go on, or be another one. -/
def Rule.continues : Rule → Char → Bool
  | whitespace, c => isBlank c
  | comment, c => c ≠ '\n'
  | keyword, c | identifier, c => isWord c
  -- the star and the slash, which open comments, are operators too
  | operator, c => operatorSpellings.contains [c]
  | constant, c => isWord c || isSign c || c = '.'
  | punctuator, c => c.isDigit
  | literal, _ | unrecognised, _ => false
  -- these end only where the text ends
  | unterminatedComment, _ | unterminatedLiteral, _ => true

/-! ## Numbers -/

theorem Exponent.continues_of_mem {e : Exponent} :
    ∀ c ∈ e.chars, Rule.constant.continues c = true := by
  intro c hc
  rw [Exponent.chars, List.mem_cons, List.mem_append, Option.mem_toList] at hc
  rcases hc with rfl | hsign | hdigit
  · -- the letter `e`, in either case
    rcases e.mark_ok with h | h <;> rw [h] <;> decide
  · simp [Rule.continues, e.sign_ok c hsign]
  · simp [Rule.continues, isWord_of_isDigit (e.digits_ok c hdigit)]

theorem Mantissa.continues_of_mem {m : Mantissa} :
    ∀ c ∈ m.chars, Rule.constant.continues c = true := by
  intro c hc
  rw [Mantissa.chars, List.mem_append] at hc
  rcases hc with hwhole | hfraction
  · simp [Rule.continues, isWord_of_isDigit (m.whole_ok c hwhole)]
  · cases hf : m.fraction with
    | none => simp [hf] at hfraction
    | some digits =>
      rw [hf, Option.elim_some, List.mem_cons] at hfraction
      rcases hfraction with rfl | hdigit
      · decide
      · simp [Rule.continues, isWord_of_isDigit (m.fraction_ok digits hf c hdigit)]

theorem Number.continues_of_mem {n : Number} :
    ∀ c ∈ n.chars, Rule.constant.continues c = true := by
  intro c hc
  rw [Number.chars, List.mem_append, List.mem_append, Option.mem_toList] at hc
  rcases hc with hsign | hmantissa | hexponent
  · simp [Rule.continues, n.sign_ok c hsign]
  · exact Mantissa.continues_of_mem c hmantissa
  · cases he : n.exponent with
    | none => simp [he] at hexponent
    | some e =>
      rw [he] at hexponent
      exact Exponent.continues_of_mem c hexponent

theorem Number.Ends.replace {n : Number} {front tail tail' : List Char}
    (h : n.Ends (front ++ tail)) (htail : Stops Rule.constant.continues tail') :
    n.Ends (front ++ tail') := by
  -- neither a digit nor a point can start the new tail
  have hdigit : Stops Char.isDigit tail' := htail.mono fun c hc => by
    simp [Rule.continues, isWord_of_isDigit hc]
  have hpoint : Stops (· = '.') tail' := htail.mono fun c hc => by
    rw [decide_eq_true_eq] at hc
    simp [Rule.continues, hc]
  refine ⟨h.1.replace fun _ => hdigit, fun hnone => ⟨fun hfrac => ?_, fun e he => ?_⟩⟩
  · exact ((h.2 hnone).1 hfrac).replace fun _ => hpoint
  · -- the exponent would have been there before
    have hfront := isPrefix_of_stops Exponent.continues_of_mem htail he
    exact (h.2 hnone).2 e (hfront.trans (List.prefix_append front tail))

/-! ## All rules -/

theorem singleton_mem_of_append_mem_operatorSpellings {lexeme : List Char} {c : Char}
    (h : lexeme ++ [c] ∈ operatorSpellings) : [c] ∈ operatorSpellings := by
  have hlast : ∀ operator ∈ operatorSpellings,
      operator.drop (operator.length - 1) ∈ operatorSpellings := by
    decide
  simpa using hlast _ h

/-- The rules for the words of the language in a wide sense: what can go on behind a lexeme of
such a rule is what the lexeme consists of. -/
def Rule.wordlike : List Rule := [keyword, identifier, operator, constant]

theorem Rule.Fits.continues_of_mem {rule : Rule} {before : Option Char} {lexeme rest : List Char}
    (h : rule.Fits before lexeme rest) (hrule : rule ∈ wordlike) :
    ∀ c ∈ lexeme, rule.continues c = true := by
  cases rule with
  | keyword => exact Lexeme.isWord_of_mem_keywordSpellings lexeme h.2.1
  | identifier =>
    obtain ⟨⟨c, cs, rfl, hc, hcs⟩, -⟩ := h
    intro d hd
    rcases List.mem_cons.1 hd with rfl | hd
    · exact Lexeme.isWord_of_isWordStart hc
    · exact hcs d hd
  | operator =>
    have hall : ∀ spelling ∈ operatorSpellings,
        spelling.all (continues operator) = true := by
      decide
    exact List.all_eq_true.1 (hall lexeme h.1)
  | constant =>
    obtain ⟨n, rfl, -⟩ := h
    exact Number.continues_of_mem
  | whitespace | comment | unterminatedComment | literal | unterminatedLiteral | punctuator
  | unrecognised => exact absurd hrule (by decide)

theorem Rule.Fits.replace {rule : Rule} {before before' : Option Char}
    {lexeme front tail tail' : List Char} (h : rule.Fits before lexeme (front ++ tail))
    (hbefore : rule = .keyword → before'.any isWord = before.any isWord)
    (htail : Stops rule.continues tail') : rule.Fits before' lexeme (front ++ tail') := by
  cases rule with
  | whitespace => exact ⟨h.1, h.2.1, h.2.2.replace fun _ => htail⟩
  | comment =>
    rcases h with ⟨hline, hstops⟩ | hblock
    · exact .inl ⟨hline, hstops.replace fun _ => htail⟩
    · -- a block comment ends in itself, whatever follows
      exact .inr hblock
  | unterminatedComment =>
    -- it ends with the text, so there is no tail on either side
    have hfront := (List.append_eq_nil_iff.1 h.2).1
    exact ⟨h.1, by rw [hfront, eq_nil_of_stops_true htail]; rfl⟩
  -- the only rule that looks at the character before
  | keyword => exact ⟨(hbefore rfl).trans h.1, h.2.1, h.2.2.replace fun _ => htail⟩
  | identifier => exact ⟨h.1, h.2.replace fun _ => htail⟩
  | operator =>
    -- an operator that is longer by one would start the tail with an operator
    refine ⟨h.1, h.2.replace fun _ => htail.mono fun c hc => ?_⟩
    have := singleton_mem_of_append_mem_operatorSpellings (List.contains_iff_mem.1 hc)
    exact List.contains_iff_mem.2 this
  | constant =>
    obtain ⟨n, hn, hends⟩ := h
    exact ⟨n, hn, hends.replace htail⟩
  | literal => exact h
  | unterminatedLiteral =>
    have hfront := (List.append_eq_nil_iff.1 h.2).1
    exact ⟨h.1, by rw [hfront, eq_nil_of_stops_true htail]; rfl⟩
  | punctuator => exact h
  | unrecognised => exact h

theorem Rule.Unclaimed.replace {rule : Rule} {before before' : Option Char}
    {lexeme front tail tail' : List Char} (h : rule.Unclaimed before lexeme (front ++ tail))
    (hbefore : rule = .identifier → lexeme ∈ keywordSpellings →
      before'.any isWord = before.any isWord)
    (htail : Stops rule.continues tail') : rule.Unclaimed before' lexeme (front ++ tail') := by
  cases rule with
  | identifier => exact fun hfree hmem => h ((hbefore rfl hmem).symm.trans hfree) hmem
  | operator =>
    -- a slash and a star, which would open a comment, are operators too
    refine fun hslash => (h hslash).replace fun _ => htail.mono fun c hc => ?_
    rw [Bool.or_eq_true, decide_eq_true_eq, decide_eq_true_eq] at hc
    rcases hc with rfl | rfl <;> decide
  | punctuator => exact fun hpoint => (h hpoint).replace fun _ => htail
  | whitespace | comment | unterminatedComment | keyword | constant | literal
  | unterminatedLiteral | unrecognised => exact h

/-- A lexeme is found again in front of another tail, from the place on where the tails differ. -/
theorem firstRule?_replace {before before' : Option Char} {rule : Rule}
    {lexeme front tail tail' : List Char}
    (h : firstRule? before (lexeme ++ (front ++ tail)) = some (rule, lexeme.length))
    (hbefore : rule = .keyword ∨ rule = .identifier ∧ lexeme ∈ keywordSpellings →
      before'.any isWord = before.any isWord)
    (htail : Stops rule.continues tail') :
    firstRule? before' (lexeme ++ (front ++ tail')) = some (rule, lexeme.length) := by
  obtain ⟨hfits, hfree⟩ := firstRule?_append_iff.1 h
  refine firstRule?_append_iff.2 ⟨hfits.replace (fun hrule => hbefore (.inl hrule)) htail, ?_⟩
  exact hfree.replace (fun hrule hmem => hbefore (.inr ⟨hrule, hmem⟩)) htail

/-! ## Another character before -/

theorem firstRule?_congr {before before' : Option Char}
    (h : before'.any isWord = before.any isWord) (rest : List Char) :
    firstRule? before' rest = firstRule? before rest := by
  -- the rules are compared one by one
  have hlength : ∀ rule : Rule,
      rule.lexemeLength? before' rest = rule.lexemeLength? before rest := by
    intro rule
    cases rule with
    | keyword => rw [Rule.lexemeLength?, Rule.lexemeLength?, Lexeme.keyword?, Lexeme.keyword?, h]
    | whitespace | comment | unterminatedComment | identifier | operator | constant | literal
    | unterminatedLiteral | punctuator | unrecognised => rfl
  rw [firstRule?, firstRule?]
  simp only [hlength]

/-! ## Blanks -/

/-- No word ends in a blank. -/
theorem any_isWord_getLast?_blanks {blanks : List Char} (h : ∀ c ∈ blanks, isBlank c = true) :
    blanks.getLast?.any isWord = false := by
  cases hlast : blanks.getLast? with
  | none => rfl
  | some c => exact isWord_eq_false_of_isBlank (h c (List.mem_of_getLast? hlast))

/-- White space is tried first. -/
theorem Rule.whitespace_mem_earlier {rule : Rule} (h : rule ≠ .whitespace) :
    .whitespace ∈ rule.earlier := by
  cases rule with
  | whitespace => exact absurd rfl h
  | _ => decide

/-- What does not start with white space does not start with a blank. -/
theorem stops_isBlank_of_firstRule? {before : Option Char} {rule : Rule} {cs : List Char} {n : Nat}
    (h : firstRule? before cs = some (rule, n)) (hrule : rule ≠ .whitespace) :
    Stops isBlank cs := by
  have hnone := (firstRule?_eq_some_iff.1 h).2 .whitespace (Rule.whitespace_mem_earlier hrule)
  cases cs with
  | nil => exact stops_nil _
  | cons c cs =>
    refine stops_cons.2 (Bool.eq_false_iff.2 fun hblank => ?_)
    -- white space would have been found at a blank
    exact Lexeme.whitespace?_ne_none hblank cs hnone

/-- All blanks at a place are one lexeme. -/
theorem firstRule?_blanks (before : Option Char) {blanks rest : List Char} (hne : blanks ≠ [])
    (hblanks : ∀ c ∈ blanks, isBlank c = true) (hrest : Stops isBlank rest) :
    firstRule? before (blanks ++ rest) = some (.whitespace, blanks.length) :=
  firstRule?_append_iff.2 ⟨⟨hne, hblanks, hrest⟩, trivial⟩

theorem firstRule?_space (before : Option Char) {rest : List Char} (hrest : Stops isBlank rest) :
    firstRule? before ([' '] ++ rest) = some (.whitespace, [' '].length) :=
  firstRule?_blanks before (List.cons_ne_nil ' ' []) (by simp [isBlank]) hrest

end TokenCensus.Grammar

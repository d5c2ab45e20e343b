import TokenCensus.Proofs.Content

/-!
# Line endings

A source may end its lines by a newline or by a carriage return and a newline.  Putting a carriage
return in front of each newline changes nothing but the places: the tokens and the problems are the
same, each further on by the number of newlines before it, and only in literals that hold newlines
do the texts show the difference.

The run of the new text is built along that of the old one.  A carriage return is a blank, so it
joins the white space that the newline belongs to.  There is one exception: a comment up to the end
of its line leaves the newline but takes the carriage return.  What follows such a comment starts
with a newline that has lost its carriage return, and it is white space all the same.

## Key results

- `Text.crlfOffset_byteLength`: where a place of the text has gone
- `closingMark_infix_crlf`, `LiteralBody.crlf`, `closeLiteral?_crlf`: comments and literals close
  where they did
- `firstRule?_crlf`: a lexeme is found again by its rule
- `Run.exists_crlf`: the run of the new text, and what it holds
- `scan_crlf`: tokens and diagnostics of the new text
-/

namespace TokenCensus

open Grammar (Rule Stops firstRule? isBlank)

/-! ## Carriage returns -/

namespace Text

/-- The text with a carriage return in front of each newline. -/
def crlf (cs : List Char) : List Char :=
  cs.flatMap fun c => if c = '\n' then ['\r', '\n'] else [c]

@[simp] theorem crlf_nil : crlf [] = [] := rfl

@[simp] theorem crlf_newline (cs : List Char) : crlf ('\n' :: cs) = '\r' :: '\n' :: crlf cs := rfl

@[simp] theorem crlf_cons {c : Char} (h : c ≠ '\n') (cs : List Char) :
    crlf (c :: cs) = c :: crlf cs := by
  simp [crlf, h]

@[simp] theorem crlf_append (front rest : List Char) :
    crlf (front ++ rest) = crlf front ++ crlf rest := by
  simp [crlf]

theorem crlf_of_not_mem {cs : List Char} (h : '\n' ∉ cs) : crlf cs = cs := by
  induction cs with
  | nil => rfl
  | cons c cs ih =>
    rw [List.mem_cons, not_or] at h
    rw [crlf_cons (Ne.symm h.1), ih h.2]

theorem crlf_ne_nil {cs : List Char} (h : cs ≠ []) : crlf cs ≠ [] := by
  cases cs with
  | nil => exact absurd rfl h
  | cons c cs => by_cases hc : c = '\n' <;> simp [hc]

/-- Nothing new but carriage returns comes in. -/
theorem mem_crlf {c : Char} {cs : List Char} (h : c ∈ crlf cs) : c = '\r' ∨ c ∈ cs := by
  rw [crlf, List.mem_flatMap] at h
  obtain ⟨d, hd, hc⟩ := h
  split at hc
  · rename_i hnewline
    subst hnewline
    -- the newline has become two characters
    rcases List.mem_cons.1 hc with rfl | hc
    · exact .inl rfl
    · exact .inr (List.mem_singleton.1 hc ▸ hd)
  · exact .inr (List.mem_singleton.1 hc ▸ hd)

/-- The last character stays the last. -/
theorem getLast?_crlf (cs : List Char) : (crlf cs).getLast? = cs.getLast? := by
  induction cs with
  | nil => rfl
  | cons c cs ih => by_cases h : c = '\n' <;> simp [h, List.getLast?_cons, ih]

theorem utf8Size_return : '\r'.utf8Size = 1 := by decide

theorem byteLength_crlf (cs : List Char) :
    byteLength (crlf cs) = byteLength cs + cs.count '\n' := by
  induction cs with
  | nil => rfl
  | cons c cs ih =>
    -- only a newline brings in a byte
    by_cases h : c = '\n'
    · subst h
      simp only [crlf_newline, byteLength_cons, ih, utf8Size_return, List.count_cons_self]
      omega
    · simp only [crlf_cons h, byteLength_cons, ih, List.count_cons_of_ne h]
      omega

/-- The number of newlines among the first `offset` bytes of a text. -/
def newlinesBefore : List Char → Nat → Nat
  | [], _ => 0
  | c :: cs, offset =>
    -- the bytes end in front of `c`, or inside it
    if offset < c.utf8Size then 0
    else (if c = '\n' then 1 else 0) + newlinesBefore cs (offset - c.utf8Size)

theorem newlinesBefore_byteLength (front rest : List Char) :
    newlinesBefore (front ++ rest) (byteLength front) = front.count '\n' := by
  induction front with
  | nil =>
    cases rest with
    | nil => rfl
    | cons c cs => simp [newlinesBefore, c.utf8Size_pos]
  | cons c front ih =>
    have hlt : ¬ byteLength (c :: front) < c.utf8Size := by simp
    have hsub : byteLength (c :: front) - c.utf8Size = byteLength front := by simp
    rw [List.cons_append, newlinesBefore, if_neg hlt, hsub, ih]
    by_cases h : c = '\n'
    · subst h
      simp
      omega
    · simp [h, List.count_cons_of_ne h]

/-- Where the byte `offset` of a text goes when carriage returns are put in. -/
def crlfOffset (cs : List Char) (offset : Nat) : Nat := offset + newlinesBefore cs offset

/-- The place between two parts of a text goes to the place between the new parts. -/
theorem crlfOffset_byteLength (front rest : List Char) :
    crlfOffset (front ++ rest) (byteLength front) = byteLength (crlf front) := by
  rw [crlfOffset, newlinesBefore_byteLength, byteLength_crlf]

end Text

open Text (crlf crlfOffset)

/-! ## Lexemes -/

namespace Grammar

/-- What a newline or a carriage return stops is still stopped. -/
theorem Stops.crlf {p : Char → Bool} {rest : List Char} (h : Stops p rest)
    (hp : p '\n' = false → p '\r' = false) : Stops p (crlf rest) := by
  cases rest with
  | nil => exact h
  | cons c cs =>
    rw [stops_cons] at h
    -- the newline has a carriage return in front of it now
    by_cases hc : c = '\n'
    · subst hc
      exact stops_cons.2 (hp h)
    · rw [Text.crlf_cons hc]
      exact stops_cons.2 h

namespace Lexeme

/-- No closing mark of a comment comes or goes. -/
theorem closingMark_infix_crlf (cs : List Char) :
    ['*', '/'] <:+: crlf cs ↔ ['*', '/'] <:+: cs := by
  induction cs with
  | nil => rfl
  -- only a newline changes, and neither form of it belongs to a mark
  | cons c cs ih =>
    by_cases hc : c = '\n'
    · subst hc
      simp [List.infix_cons_iff, ih]
    · -- a mark that starts with `c` has its slash at the head of what follows
      have hslash : ['/'] <+: crlf cs ↔ ['/'] <+: cs := by
        cases cs with
        | nil => rfl
        | cons d ds => by_cases hd : d = '\n' <;> simp [hd]
      rw [Text.crlf_cons hc, List.infix_cons_iff, List.infix_cons_iff, List.cons_prefix_cons,
        List.cons_prefix_cons, hslash, ih]

theorem IsBlockComment.crlf {lexeme : List Char} (h : IsBlockComment lexeme) :
    IsBlockComment (crlf lexeme) := by
  obtain ⟨body, rfl, hfirst⟩ := h
  refine ⟨Text.crlf body, by simp, ?_⟩
  -- the star behind the body is not changed
  have hmark : Text.crlf body ++ ['*'] = Text.crlf (body ++ ['*']) := by simp
  rwa [hmark, closingMark_infix_crlf]

theorem IsLineComment.newline_not_mem {lexeme : List Char} (h : IsLineComment lexeme) :
    '\n' ∉ lexeme := by
  obtain ⟨body, rfl, hbody⟩ := h
  simp [hbody]

theorem IsLineComment.not_isBlockComment {lexeme : List Char} (h : IsLineComment lexeme) :
    ¬ IsBlockComment lexeme := by
  obtain ⟨body, rfl, -⟩ := h
  intro hblock
  obtain ⟨other, hother, -⟩ := hblock
  simp at hother

/-- A comment up to the end of its line takes the carriage return at that end. -/
theorem IsLineComment.append_return {lexeme : List Char} (h : IsLineComment lexeme) :
    IsLineComment (lexeme ++ ['\r']) := by
  obtain ⟨body, rfl, hbody⟩ := h
  exact ⟨body ++ ['\r'], rfl, by simp [hbody]⟩

/-- A backslash in front of a newline now takes the carriage return, and leaves the newline as
a plain character. -/
theorem LiteralBody.crlf {body : List Char} (h : LiteralBody body) :
    LiteralBody (crlf body) := by
  induction h with
  | nil => exact .nil
  | @plain c cs hquote hslash _ ih =>
    by_cases hc : c = '\n'
    · subst hc
      exact .plain (by decide) (by decide) (.plain (by decide) (by decide) ih)
    · rw [Text.crlf_cons hc]
      exact .plain hquote hslash ih
  | @escaped c cs _ ih =>
    by_cases hc : c = '\n'
    · subst hc
      exact .escaped (.plain (by decide) (by decide) ih)
    · rw [Text.crlf_cons (by decide), Text.crlf_cons hc]
      exact .escaped ih

/-- A literal that does not close still does not close. -/
theorem closeLiteral?_crlf {seen seen' : Nat} {cs : List Char} (h : closeLiteral? seen cs = none) :
    closeLiteral? seen' (crlf cs) = none := by
  fun_induction closeLiteral? seen cs generalizing seen' with
  | case1 => rfl
  | case2 => cases h
  -- a backslash and what it takes
  | case3 seen c cs ih =>
    by_cases hc : c = '\n'
    · subst hc
      exact ih h
    · rw [Text.crlf_cons (by decide), Text.crlf_cons hc]
      exact ih h
  | case4 seen c cs hquote hslash ih =>
    by_cases hc : c = '\n'
    · subst hc
      exact ih h
    · -- the equation for a plain character, whose conditions are those of this branch
      rw [Text.crlf_cons hc, closeLiteral?.eq_4]
      · exact ih h
      · exact hquote
      · -- a backslash is the last character, before and after
        intro d ds hd hds
        cases cs with
        | nil => cases hds
        | cons e es => exact hslash e es hd rfl

end Lexeme

open Lexeme

/-- Words, operators and numbers hold no newline. -/
theorem Rule.Fits.newline_not_mem {rule : Rule} {before : Option Char} {lexeme rest : List Char}
    (h : rule.Fits before lexeme rest) (hrule : rule ∈ Rule.wordlike) : '\n' ∉ lexeme := by
  intro hmem
  -- a newline goes on with none of these rules
  have hno : ∀ rule ∈ Rule.wordlike, rule.continues '\n' = false := by decide
  have hcontinues := h.continues_of_mem hrule '\n' hmem
  rw [hno rule hrule] at hcontinues
  exact nomatch hcontinues

/-- Neither is a newline a stray character. -/
theorem newline_not_mem_of_unknown {lexeme : List Char} (h : ∀ c ∈ lexeme, Rule.isKnown c = false) :
    '\n' ∉ lexeme := by
  intro hmem
  have hknown : Rule.isKnown '\n' = true := by decide
  rw [h '\n' hmem] at hknown
  exact nomatch hknown

/-- A lexeme that a carriage return ends is found again in front of the new text. -/
theorem firstRule?_crlf_rest {before : Option Char} {rule : Rule} {lexeme rest : List Char}
    (h : firstRule? before (lexeme ++ rest) = some (rule, lexeme.length))
    (hreturn : rule.continues '\r' = false) :
    firstRule? before (lexeme ++ crlf rest) = some (rule, lexeme.length) := by
  -- up to the first newline both texts are the same
  obtain ⟨front, tail, rfl, -, hfront, htail⟩ := exists_run_append (· ≠ '\n') rest
  have hline : '\n' ∉ front := fun hmem => by simpa using hfront _ hmem
  rw [Text.crlf_append, Text.crlf_of_not_mem hline]
  -- what has changed starts with a carriage return, which ends the lexeme as the newline did
  apply firstRule?_replace h (fun _ => rfl)
  cases tail with
  | nil => exact stops_nil _
  -- from the newline on, the text goes on with its carriage return
  | cons c cs =>
    obtain rfl : c = '\n' := by simpa using stops_cons.1 htail
    exact stops_cons.2 hreturn

/-- A lexeme is found again by its rule, unless it is a comment up to the end of its line. -/
theorem firstRule?_crlf {before : Option Char} {rule : Rule} {lexeme rest : List Char}
    (h : firstRule? before (lexeme ++ rest) = some (rule, lexeme.length))
    (hline : rule = .comment → ¬ IsLineComment lexeme) :
    firstRule? before (crlf lexeme ++ crlf rest) = some (rule, (crlf lexeme).length) := by
  obtain ⟨hfits, hfree⟩ := firstRule?_append_iff.1 h
  -- lexemes without a newline are as they were, and the others are taken rule by rule
  by_cases hword : rule ∈ Rule.wordlike
  · have hreturn : ∀ rule ∈ Rule.wordlike, rule.continues '\r' = false := by decide
    rw [Text.crlf_of_not_mem (hfits.newline_not_mem hword)]
    exact firstRule?_crlf_rest h (hreturn rule hword)
  · cases rule with
    | whitespace =>
      obtain ⟨hne, hblanks, hstops⟩ := hfits
      apply firstRule?_blanks before
      · exact Text.crlf_ne_nil hne
      · -- every character is a blank, one that was there or a carriage return
        intro c hc
        cases Text.mem_crlf hc with
        | inl hreturn => rw [hreturn]; decide
        | inr hmem => exact hblanks c hmem
      · exact hstops.crlf (by decide)
    | comment =>
      -- not up to the end of a line, so between two marks
      have hblock : IsBlockComment lexeme := hfits.resolve_left fun hfits => hline rfl hfits.1
      exact firstRule?_append_iff.2 ⟨.inr hblock.crlf, trivial⟩
    | unterminatedComment =>
      obtain ⟨⟨body, rfl⟩, rfl⟩ := hfits
      -- the mark that is missing has not come in
      refine firstRule?_append_iff.2 ⟨⟨⟨crlf body, by simp⟩, rfl⟩, ?_⟩
      intro others hothers
      have hbody : others = crlf body := by simpa using hothers.symm
      rw [hbody, closingMark_infix_crlf]
      exact hfree body rfl
    | literal =>
      obtain ⟨body, rfl, hbody⟩ := hfits
      exact firstRule?_append_iff.2 ⟨⟨crlf body, by simp, hbody.crlf⟩, trivial⟩
    | unterminatedLiteral =>
      obtain ⟨⟨body, rfl⟩, rfl⟩ := hfits
      have hopen : closeLiteral? 1 body = none :=
        closeLiteral?_eq_none_iff.2 fun front back hcs => hfree front back (by simp [hcs])
      have hopen' : closeLiteral? 1 (crlf body) = none := closeLiteral?_crlf hopen
      -- nor has a quote that could close the literal
      refine firstRule?_append_iff.2 ⟨⟨⟨crlf body, by simp⟩, rfl⟩, ?_⟩
      intro front back hback
      exact closeLiteral?_eq_none_iff.1 hopen' front back (by simpa using hback)
    | punctuator =>
      obtain ⟨c, hc, rfl⟩ := hfits
      have hno : '\n' ∉ punctuators := by decide
      have hne : '\n' ≠ c := fun heq => hno (heq ▸ hc)
      rw [Text.crlf_of_not_mem (by simpa using hne)]
      exact firstRule?_crlf_rest h (by decide)
    | unrecognised =>
      rw [Text.crlf_of_not_mem (newline_not_mem_of_unknown hfree)]
      exact firstRule?_crlf_rest h (by decide)
    -- these are the rules without a newline
    | keyword | identifier | operator | constant => exact absurd (by decide) hword

theorem firstRule?_lineComment (before : Option Char) {lexeme rest : List Char}
    (hline : IsLineComment lexeme) (hstops : Stops (· ≠ '\n') rest) :
    firstRule? before (lexeme ++ rest) = some (.comment, lexeme.length) := by
  have hfits : Rule.comment.Fits before lexeme rest := .inl ⟨hline, hstops⟩
  exact firstRule?_append_iff.2 ⟨hfits, trivial⟩

/-- A newline starts white space. -/
theorem rule_eq_whitespace_of_newline {before : Option Char} {rule : Rule} {cs : List Char}
    {n : Nat} (h : firstRule? before ('\n' :: cs) = some (rule, n)) : rule = .whitespace := by
  by_cases hrule : rule = .whitespace
  · exact hrule
  · have hstops := stops_isBlank_of_firstRule? h hrule
    exact absurd (stops_cons.1 hstops) (by decide)

end Grammar

/-! ## What the new text holds -/

/-- The same token of the text with carriage returns. -/
def Token.crlf (cs : List Char) (token : Token) : Token :=
  ⟨token.kind, String.ofList (Text.crlf token.value.toList),
    ⟨crlfOffset cs token.span.start, crlfOffset cs token.span.stop⟩⟩

/-- The same diagnostic of the text with carriage returns. -/
def Diagnostic.crlf (cs : List Char) (diagnostic : Diagnostic) : Diagnostic :=
  { diagnostic with position := crlfOffset cs diagnostic.position }

/-- The same tokens and diagnostics of the text with carriage returns. -/
def Scan.crlf (cs : List Char) (scan : Scan) : Scan :=
  ⟨scan.tokens.map (Token.crlf cs), scan.diagnostics.map (Diagnostic.crlf cs)⟩

theorem Scan.crlf_append (cs : List Char) (front back : Scan) :
    (front ++ back).crlf cs = front.crlf cs ++ back.crlf cs := by
  simp only [crlf, tokens_append, diagnostics_append, List.map_append]
  rfl

/-- A stray character is never a newline, so the problem of a piece stays what it is. -/
theorem Grammar.problem_crlf {before : Option Char} {rule : Rule} {lexeme rest : List Char}
    (h : firstRule? before (lexeme ++ rest) = some (rule, lexeme.length)) {fault : Fault}
    (hfault : rule.action = .diagnose fault) :
    fault.problem (String.ofList (Text.crlf lexeme)) = fault.problem (String.ofList lexeme) := by
  -- the stray character is none that any rule starts with
  have hfree := (firstRule?_append_iff.1 h).2
  cases rule with
  | unterminatedComment =>
    cases hfault
    rfl
  | unterminatedLiteral =>
    cases hfault
    rfl
  | unrecognised => rw [Text.crlf_of_not_mem (newline_not_mem_of_unknown hfree)]
  | whitespace | comment | keyword | identifier | operator | constant | literal | punctuator =>
    exact nomatch hfault

/-- Behind `lead` bytes, `others` hold what `pieces` hold in the text `cs`, wherever that text
stands: the places go to where the carriage returns have moved them. -/
def HoldsCrlf (cs : List Char) (pieces : List Piece) (lead : Nat) (others : List Piece) : Prop :=
  ∀ front, Scan.ofPieces (Text.byteLength (crlf front) + lead) others =
    (Scan.ofPieces (Text.byteLength front) pieces).crlf (front ++ cs)

namespace HoldsCrlf

variable {rest lexeme : List Char} {pieces others : List Piece} {rule : Rule}

/-- One more piece, which stands between two places of the text. -/
theorem cons {before : Option Char} (h : HoldsCrlf rest pieces 0 others)
    (hfirst : firstRule? before (lexeme ++ rest) = some (rule, lexeme.length)) :
    HoldsCrlf (lexeme ++ rest) (⟨rule, lexeme⟩ :: pieces) 0 (⟨rule, crlf lexeme⟩ :: others) := by
  -- the place of the piece, and that of what follows it
  intro front
  have hrest := h (front ++ lexeme)
  have hstart := Text.crlfOffset_byteLength front (lexeme ++ rest)
  have hstop := Text.crlfOffset_byteLength (front ++ lexeme) rest
  rw [List.append_assoc] at hrest hstop
  rw [Text.crlf_append, Text.byteLength_append, Text.byteLength_append] at hrest hstop
  rw [Scan.ofPieces_cons, Scan.ofPieces_cons _ _ pieces, Scan.crlf_append, ← hrest, Nat.add_zero,
    Nat.add_zero]
  congr 1
  cases haction : rule.action with
  | emit kind =>
    rw [Scan.ofPieces_of_emit haction, Scan.ofPieces_of_emit haction]
    simp [Scan.crlf, Token.crlf, hstart, hstop]
  | diagnose fault =>
    rw [Scan.ofPieces_of_diagnose haction, Scan.ofPieces_of_diagnose haction,
      Grammar.problem_crlf hfirst haction]
    simp [Scan.crlf, Diagnostic.crlf, hstart]
  | skip kind =>
    rw [Scan.ofPieces_of_skip haction, Scan.ofPieces_of_skip haction]
    rfl

/-- Of trivia only the length counts.  The next piece may be `lead'` bytes behind its place, if this
one has taken them. -/
theorem skip {lexeme' : List Char} {lead lead' : Nat} (h : HoldsCrlf rest pieces lead' others)
    (hskip : rule.action.skips = true)
    (hlength : lead + Text.byteLength lexeme' = Text.byteLength (crlf lexeme) + lead') :
    HoldsCrlf (lexeme ++ rest) (⟨rule, lexeme⟩ :: pieces) lead (⟨rule, lexeme'⟩ :: others) := by
  intro front
  have hrest := h (front ++ lexeme)
  -- the bytes before and behind the piece add up to the same on both sides
  rw [List.append_assoc, Text.crlf_append, Text.byteLength_append, Text.byteLength_append,
    Nat.add_assoc, ← hlength, ← Nat.add_assoc] at hrest
  obtain ⟨kind, haction⟩ := Grammar.Action.eq_of_skips hskip
  rw [Scan.ofPieces_cons, Scan.ofPieces_cons _ _ pieces, Scan.ofPieces_of_skip haction,
    Scan.ofPieces_of_skip haction, Scan.crlf_append, ← hrest]
  rfl

end HoldsCrlf

/-! ## The run of the new text -/

/-- A comment up to the end of its line is found again, with the carriage return at that end. -/
theorem Run.exists_crlf_lineComment {lexeme rest : List Char} {pieces : List Piece}
    (before : Option Char) (hline : Grammar.Lexeme.IsLineComment lexeme)
    (hstops : Stops (· ≠ '\n') rest)
    (hend : rest = [] → pieces = [])
    (hnewline : ∀ tail, rest = '\n' :: tail → ∀ before', ∃ others,
      Run before' ('\n' :: crlf tail) others ∧ HoldsCrlf rest pieces 1 others) :
    ∃ others, Run before (crlf (lexeme ++ rest)) others ∧
      HoldsCrlf (lexeme ++ rest) (⟨.comment, lexeme⟩ :: pieces) 0 others := by
  -- the comment holds no newline, so it has not changed
  have hsame := Text.crlf_of_not_mem hline.newline_not_mem
  -- up to the end of the text, or up to a newline
  cases rest with
  | nil =>
    obtain rfl := hend rfl
    have hfirst := Grammar.firstRule?_lineComment before hline (Grammar.stops_nil _)
    refine ⟨[⟨.comment, lexeme⟩], ?_, fun front => rfl⟩
    rw [Text.crlf_append, hsame]
    exact .cons hfirst .nil
  | cons c tail =>
    -- the carriage return belongs to the comment, and the newline itself comes next
    obtain rfl : c = '\n' := by simpa using Grammar.stops_cons.1 hstops
    obtain ⟨others, hothers, hholds⟩ := hnewline tail rfl (lexeme ++ ['\r']).getLast?
    have hstops' : Stops (· ≠ '\n') ('\n' :: crlf tail) := Grammar.stops_cons.2 (by decide)
    have hfirst := Grammar.firstRule?_lineComment before hline.append_return hstops'
    refine ⟨⟨.comment, lexeme ++ ['\r']⟩ :: others, ?_, hholds.skip rfl ?_⟩
    · have hsplit : crlf (lexeme ++ '\n' :: tail) = (lexeme ++ ['\r']) ++ '\n' :: crlf tail := by
        simp [hsame]
      rw [hsplit]
      exact .cons hfirst hothers
    · simp [hsame, Text.utf8Size_return]

/-- White space that starts with a newline is found again without the first carriage return. -/
theorem Run.exists_crlf_newline {lexeme rest : List Char} {pieces others : List Piece}
    (before : Option Char) (hblanks : ∀ c ∈ '\n' :: lexeme, isBlank c = true)
    (hstops : Stops isBlank rest)
    (hothers : Run (crlf ('\n' :: lexeme)).getLast? (crlf rest) others)
    (hholds : HoldsCrlf rest pieces 0 others) :
    ∃ others, Run before ('\n' :: crlf (lexeme ++ rest)) others ∧
      HoldsCrlf ('\n' :: lexeme ++ rest) (⟨.whitespace, '\n' :: lexeme⟩ :: pieces) 1 others := by
  -- what follows the newline has blanks only, carriage returns among them
  have hblank : ∀ c ∈ '\n' :: crlf lexeme, isBlank c = true := by
    intro c hc
    have hmem : c ∈ crlf ('\n' :: lexeme) := List.mem_cons_of_mem '\r' hc
    cases Text.mem_crlf hmem with
    | inl hreturn => rw [hreturn]; decide
    | inr hmem => exact hblanks c hmem
  have hfirst := Grammar.firstRule?_blanks before (List.cons_ne_nil '\n' (crlf lexeme)) hblank
    (hstops.crlf (by decide))
  refine ⟨⟨.whitespace, '\n' :: crlf lexeme⟩ :: others, ?_, hholds.skip rfl ?_⟩
  · rw [Text.crlf_append, ← List.cons_append]
    exact .cons hfirst (by simpa using hothers)
  · simp [Text.utf8Size_return]

/-- A text with carriage returns holds what the text holds.  So it does when it starts with
a newline that has lost its carriage return to the comment before it. -/
theorem Run.exists_crlf {before : Option Char} {cs : List Char} {pieces : List Piece}
    (h : Run before cs pieces) :
    (∃ others, Run before (crlf cs) others ∧ HoldsCrlf cs pieces 0 others) ∧
      ∀ tail, cs = '\n' :: tail → ∀ before', ∃ others,
        Run before' ('\n' :: crlf tail) others ∧ HoldsCrlf cs pieces 1 others := by
  induction h with
  -- induction on the run; the second half serves the comment that comes right before
  | nil => exact ⟨⟨[], .nil, fun front => rfl⟩, nofun⟩
  | @cons before rule lexeme rest pieces hfirst hrest ih =>
    obtain ⟨⟨others, hothers, hholds⟩, hnewline⟩ := ih
    have hfits := (Grammar.firstRule?_append_iff.1 hfirst).1
    rw [← Text.getLast?_crlf] at hothers
    -- a text anywhere, and one whose first carriage return the comment before has taken
    constructor
    · -- a comment up to the end of its line is the one lexeme that is longer now
      by_cases hline : rule = .comment ∧ Grammar.Lexeme.IsLineComment lexeme
      · obtain ⟨rfl, hline⟩ := hline
        have hstops := (hfits.resolve_right hline.not_isBlockComment).2
        apply Run.exists_crlf_lineComment before hline hstops ?_ hnewline
        intro hnil
        subst hnil
        exact hrest.unique .nil
      · have hagain := Grammar.firstRule?_crlf hfirst fun hrule hcomment =>
          hline ⟨hrule, hcomment⟩
        refine ⟨⟨rule, crlf lexeme⟩ :: others, ?_, hholds.cons hfirst⟩
        rw [Text.crlf_append]
        exact .cons hagain hothers
    · -- the newline starts white space, which is one byte shorter than it would be
      intro tail htail before'
      rw [htail] at hfirst
      obtain rfl := Grammar.rule_eq_whitespace_of_newline hfirst
      cases lexeme with
      | nil => exact absurd rfl hfits.1
      | cons c lexeme =>
        obtain ⟨rfl, rfl⟩ := List.cons.inj htail
        exact Run.exists_crlf_newline before' hfits.2.1 hfits.2.2 hothers hholds

/-- Line endings do not matter.  With a carriage return in front of each newline, a source holds the
same tokens and the same problems.  Their places have moved on by the number of newlines before
them, and in the texts of tokens a carriage return stands in front of each newline. -/
theorem scan_crlf (text : String) :
    (scan (String.ofList (crlf text.toList))).tokens =
      (scan text).tokens.map (Token.crlf text.toList) ∧
    (scan (String.ofList (crlf text.toList))).diagnostics =
      (scan text).diagnostics.map (Diagnostic.crlf text.toList) := by
  obtain ⟨pieces, hpieces⟩ := exists_run none text.toList
  obtain ⟨⟨others, hothers, hholds⟩, -⟩ := hpieces.exists_crlf
  -- at the start of the text, with nothing before it
  have hscan : scan (String.ofList (crlf text.toList)) = (scan text).crlf text.toList := by
    rw [← String.toList_ofList (l := crlf text.toList)] at hothers
    rw [scan_eq_ofPieces hothers, scan_eq_ofPieces hpieces]
    exact hholds []
  rw [hscan]
  exact ⟨rfl, rfl⟩

end TokenCensus

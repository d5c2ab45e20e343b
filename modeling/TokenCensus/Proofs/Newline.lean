import TokenCensus.Proofs.Tally

/-!
# Line by line

A source may be cut behind any newline that stands outside comments and literals, and its parts
scanned one by one: the tokens and the diagnostics of the whole are those of the parts, and the
counts add up.

A newline ends every lexeme but white space, which takes it, and the two that end only where the
text ends.  So each piece of the first part is found again; what is found behind them is white
space, and then the second part, which stands behind a blank and not at the start of a text.

## Key results

- `firstRule?_append_newline`: a lexeme is found again when a newline comes behind the text
- `Run.blanks_append`: blanks in front of a text are skipped with those that it starts with
- `Run.append_newline`: the run of two texts with a newline between them
- `scan_append_newline`: what two texts hold together
-/

namespace TokenCensus

open Grammar (Rule Stops firstRule? isBlank isWord)

/-! ## A newline behind a text -/

namespace Grammar

theorem Rule.continues_newline {rule : Rule} (hwhitespace : rule ≠ .whitespace)
    (hcomment : rule ≠ .unterminatedComment) (hliteral : rule ≠ .unterminatedLiteral) :
    rule.continues '\n' = false := by
  cases rule with
  | whitespace => exact absurd rfl hwhitespace
  | unterminatedComment => exact absurd rfl hcomment
  | unterminatedLiteral => exact absurd rfl hliteral
  | _ => decide

/-- A lexeme is found again when a newline comes behind the text, unless it is white space at the
end of the text or lacks its own end. -/
theorem firstRule?_append_newline {before : Option Char} {rule : Rule} {lexeme rest : List Char}
    (h : firstRule? before (lexeme ++ rest) = some (rule, lexeme.length))
    (hcomment : rule ≠ .unterminatedComment) (hliteral : rule ≠ .unterminatedLiteral)
    (hlast : ¬ (rule = .whitespace ∧ rest = [])) (more : List Char) :
    firstRule? before (lexeme ++ (rest ++ '\n' :: more)) = some (rule, lexeme.length) := by
  rw [← List.append_nil rest] at h
  -- white space goes on with a newline, so that only what follows it may change
  by_cases hrule : rule = .whitespace
  · subst hrule
    obtain ⟨hne, hblanks, hstops⟩ := (firstRule?_append_iff.1 h).1
    exact firstRule?_blanks before hne hblanks
      (hstops.replace fun hnil => absurd ⟨rfl, hnil⟩ hlast)
  · have hstops : Stops rule.continues ('\n' :: more) :=
      stops_cons.2 (Rule.continues_newline hrule hcomment hliteral)
    exact firstRule?_replace h (fun _ => rfl) hstops

end Grammar

/-! ## Two texts with a newline between them -/

namespace Run

/-- Blanks in front of a text are skipped together with those that it starts with. -/
theorem blanks_append {blanks text : List Char} {pieces : List Piece} (before : Option Char)
    (hne : blanks ≠ []) (hblanks : ∀ c ∈ blanks, isBlank c = true)
    (h : Run none text pieces) :
    ∃ joined, Run before (blanks ++ text) joined ∧
      ∀ offset, Scan.ofPieces offset joined =
        Scan.ofPieces (offset + Text.byteLength blanks) pieces := by
  -- the blanks that the text starts with, and what follows them
  obtain ⟨more, rest, rfl, -, hmore, hrest⟩ := Grammar.exists_run_append isBlank text
  by_cases hnil : more = []
  · -- the text behind the blanks is the same as at the start
    subst hnil
    have hlast := Grammar.any_isWord_getLast?_blanks hblanks
    exact ⟨⟨.whitespace, blanks⟩ :: pieces,
      .cons (Grammar.firstRule?_blanks before hne hblanks hrest) (h.congr hlast),
      fun offset => Scan.ofPieces_whitespace offset blanks pieces⟩
  · -- the blanks on both sides become one piece
    obtain ⟨others, rfl, hothers⟩ := h.eq_cons (Grammar.firstRule?_blanks none hnil hmore hrest)
    have hall : ∀ c ∈ blanks ++ more, isBlank c = true := by
      intro c hc
      exact (List.mem_append.1 hc).elim (hblanks c) (hmore c)
    have hlast : (blanks ++ more).getLast? = more.getLast? := by
      rw [List.getLast?_append, List.getLast?_eq_some_getLast hnil, Option.some_or]
    refine ⟨⟨.whitespace, blanks ++ more⟩ :: others, ?_, fun offset => ?_⟩
    · rw [← List.append_assoc]
      exact .cons (Grammar.firstRule?_blanks before (by simp [hne]) hall hrest)
        (by rwa [hlast])
    · rw [Scan.ofPieces_whitespace, Scan.ofPieces_whitespace, Text.byteLength_append,
        Nat.add_assoc]

/-- The run of two texts with a newline between them holds what both of them hold. -/
theorem append_newline {before : Option Char} {front back : List Char}
    {pieces others : List Piece} (h : Run before front pieces)
    (hends : ∀ piece ∈ pieces,
      piece.rule ≠ .unterminatedComment ∧ piece.rule ≠ .unterminatedLiteral)
    (hback : Run none back others) :
    ∃ joined, Run before (front ++ '\n' :: back) joined ∧
      ∀ offset, Scan.ofPieces offset joined =
        Scan.ofPieces offset pieces ++
          Scan.ofPieces (offset + (Text.byteLength front + 1)) others := by
  -- the newline comes right before the second text, or behind the next piece of the first
  induction h with
  | @nil before =>
    obtain ⟨joined, hjoined, hscan⟩ := hback.blanks_append before (List.cons_ne_nil '\n' [])
      (by simp [isBlank])
    exact ⟨joined, hjoined, hscan⟩
  | @cons before rule lexeme rest pieces hfirst hrest ih =>
    by_cases hlast : rule = .whitespace ∧ rest = []
    · -- the newline joins the blanks at the end of the first text
      obtain ⟨rfl, rfl⟩ := hlast
      obtain rfl := hrest.unique .nil
      obtain ⟨hne, hblanks, -⟩ := (Grammar.firstRule?_append_iff.1 hfirst).1
      have hall : ∀ c ∈ lexeme ++ ['\n'], isBlank c = true := by
        intro c hc
        rcases List.mem_append.1 hc with hc | hc
        · exact hblanks c hc
        · rw [List.mem_singleton.1 hc]
          decide
      obtain ⟨joined, hjoined, hscan⟩ := hback.blanks_append before (by simp) hall
      refine ⟨joined, by simpa using hjoined, fun offset => ?_⟩
      rw [hscan, Text.byteLength_append, List.append_nil]
      rfl
    · -- the piece is found again, and the newline comes behind the rest of the first text
      obtain ⟨joined, hjoined, hscan⟩ := ih fun piece hpiece =>
        hends piece (List.mem_cons_of_mem _ hpiece)
      obtain ⟨hcomment, hliteral⟩ := hends ⟨rule, lexeme⟩ List.mem_cons_self
      have hstep := Grammar.firstRule?_append_newline hfirst hcomment hliteral hlast back
      refine ⟨⟨rule, lexeme⟩ :: joined, ?_, fun offset => ?_⟩
      · rw [List.append_assoc]
        exact .cons hstep hjoined
      · rw [Scan.ofPieces_cons, hscan, Scan.ofPieces_cons offset _ pieces, Scan.append_assoc,
          Text.byteLength_append]
        simp only [Nat.add_assoc]

end Run

/-- A text that is not reported to lack an end has no piece that lacks its end. -/
theorem rule_ne_of_diagnostics {text : String} {pieces : List Piece}
    (hrun : Run none text.toList pieces)
    (hends : ∀ diagnostic ∈ (scan text).diagnostics,
      diagnostic.problem ≠ .unterminatedComment ∧ diagnostic.problem ≠ .unterminatedLiteral) :
    ∀ piece ∈ pieces,
      piece.rule ≠ .unterminatedComment ∧ piece.rule ≠ .unterminatedLiteral := by
  intro piece hpiece
  -- a piece of either kind would be reported
  refine ⟨fun hrule => ?_, fun hrule => ?_⟩
  · have hproblem : piece.problem? = some .unterminatedComment := by
      rw [Piece.problem?, hrule]
      rfl
    obtain ⟨diagnostic, hmem, heq⟩ := exists_diagnostic_of_problem? hrun hpiece hproblem
    exact (hends diagnostic hmem).1 heq
  · have hproblem : piece.problem? = some .unterminatedLiteral := by
      rw [Piece.problem?, hrule]
      rfl
    obtain ⟨diagnostic, hmem, heq⟩ := exists_diagnostic_of_problem? hrun hpiece hproblem
    exact (hends diagnostic hmem).2 heq

theorem scan_append_newline_eq (a b : String)
    (hends : ∀ diagnostic ∈ (scan a).diagnostics,
      diagnostic.problem ≠ .unterminatedComment ∧ diagnostic.problem ≠ .unterminatedLiteral) :
    scan (a ++ "\n" ++ b) = scan a ++ (scan b).shift (a.utf8ByteSize + 1) := by
  obtain ⟨pieces, hpieces⟩ := exists_run none a.toList
  obtain ⟨others, hothers⟩ := exists_run none b.toList
  obtain ⟨joined, hjoined, hscan⟩ :=
    hpieces.append_newline (rule_ne_of_diagnostics hpieces hends) hothers
  have hchars : (a ++ "\n" ++ b).toList = a.toList ++ '\n' :: b.toList := by
    simp
  rw [scan_eq_ofPieces (hchars ▸ hjoined), hscan, scan_eq_ofPieces hpieces,
    scan_eq_ofPieces hothers, Scan.ofPieces_add, Text.byteLength_toList]

/-- Two sources with a newline between them hold what both of them hold, if neither a comment nor
a literal stays open in the first: the tokens and the diagnostics of the second follow those of the
first, moved on, and the tables add up. -/
theorem scan_append_newline (a b : String)
    (hends : ∀ diagnostic ∈ (scan a).diagnostics,
      diagnostic.problem ≠ .unterminatedComment ∧ diagnostic.problem ≠ .unterminatedLiteral) :
    (scan (a ++ "\n" ++ b)).tokens =
      (scan a).tokens ++ (scan b).tokens.map (Token.shift (a.utf8ByteSize + 1)) ∧
    (scan (a ++ "\n" ++ b)).diagnostics =
      (scan a).diagnostics ++ (scan b).diagnostics.map (Diagnostic.shift (a.utf8ByteSize + 1)) ∧
    (∀ kind text, (tokenTable (a ++ "\n" ++ b)).count kind text =
      (tokenTable a).count kind text + (tokenTable b).count kind text) ∧
    (tokenTable (a ++ "\n" ++ b)).total = (tokenTable a).total + (tokenTable b).total := by
  have hscan := scan_append_newline_eq a b hends
  refine ⟨?_, ?_, fun kind text => ?_, ?_⟩
  · rw [hscan]
    rfl
  · rw [hscan]
    rfl
  · -- counts and totals are sums, whatever the places of the tokens
    rw [tokenTable, hscan]
    exact TokenTable.count_append_shift _ _ _ kind text
  · rw [tokenTable, hscan]
    exact TokenTable.total_append_shift _ _ _

/-- Half an exponent at the end of a line does not find its sign and digits on the next. -/
theorem scan_half_exponent_newline_digits :
    (∀ diagnostic ∈ (scan "1e").diagnostics,
      diagnostic.problem ≠ .unterminatedComment ∧ diagnostic.problem ≠ .unterminatedLiteral) ∧
    (scan ("1e" ++ "\n" ++ "+5if")).tokens =
      (scan "1e").tokens ++ (scan "+5if").tokens.map (Token.shift 3) ∧
    (tokenTable ("1e" ++ "\n" ++ "+5if")).total =
      (tokenTable "1e").total + (tokenTable "+5if").total := by
  have hends : ∀ diagnostic ∈ (scan "1e").diagnostics,
      diagnostic.problem ≠ .unterminatedComment ∧
        diagnostic.problem ≠ .unterminatedLiteral := by
    decide +kernel
  obtain ⟨htokens, -, -, htotal⟩ := scan_append_newline "1e" "+5if" hends
  exact ⟨hends, htokens, htotal⟩

end TokenCensus

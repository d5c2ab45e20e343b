import TokenCensus.Proofs.ClosingMark
import TokenCensus.Proofs.Lookahead

/-!
# Closing what lacks its end

A comment or a literal that is not closed takes all that is left of the text, so it is the last
thing that is found.  What closes it can be put behind the text: everything before is then found
again, since the quote and the slash are characters that no number goes on with, and what was
reported becomes the comment or the literal that it was meant to be.

A quote behind an odd number of backslashes closes nothing.  The backslash takes it, and the literal
goes on to the new end of the text.

## Key results

- `Run.eq_append_of_lacksEnd`: a run has one piece at most that lacks its end, and that is the last
- `Run.append_last`: the pieces before it are found again in front of more text
- `EndsOpen.scan_append`: what the longer text holds
- `closing_repairs`: what becomes of a scan when what lacks its end is closed
-/

namespace TokenCensus

open Grammar (Rule firstRule?)
open Grammar.Lexeme (LiteralBody OpenBody backslashes)

/-! ## What lacks its end -/

/-- Whether the problem is a comment or a literal that lacks its end. -/
def Problem.lacksEnd : Problem → Bool
  | .unterminatedComment | .unterminatedLiteral => true
  | .unrecognisedCharacter _ | .noInputSelected | .fileRead _ _ => false

theorem Piece.lacksEnd_of_problem? {piece : Piece} {problem : Problem}
    (h : piece.problem? = some problem) : piece.rule.lacksEnd = problem.lacksEnd := by
  obtain ⟨rule, lexeme⟩ := piece
  cases rule with
  | unterminatedComment | unterminatedLiteral | unrecognised =>
    obtain rfl := Option.some.inj h
    rfl
  | whitespace | comment | keyword | identifier | operator | constant | literal | punctuator =>
    exact nomatch h

/-- What lacks its end starts with a character that no number goes on with. -/
theorem Grammar.Rule.Fits.exists_mem {rule : Rule} {before : Option Char} {lexeme rest : List Char}
    (h : rule.Fits before lexeme rest) (hlacks : rule.lacksEnd = true) :
    ∃ c ∈ lexeme, constant.continues c = false := by
  cases rule with
  | unterminatedComment =>
    obtain ⟨body, rfl⟩ := h.1
    exact ⟨'/', List.mem_cons_self, by decide⟩
  | unterminatedLiteral =>
    obtain ⟨body, rfl⟩ := h.1
    exact ⟨'"', List.mem_cons_self, by decide⟩
  | whitespace | comment | keyword | identifier | operator | constant | literal | punctuator
  | unrecognised => exact nomatch hlacks

namespace Run

variable {before : Option Char} {cs : List Char} {pieces earlier : List Piece} {piece : Piece}

/-- A run has one piece at most that lacks its end, and that is the last one. -/
theorem eq_append_of_lacksEnd (h : Run before cs pieces) (hpiece : piece ∈ pieces)
    (hlacks : piece.rule.lacksEnd = true) :
    ∃ earlier, pieces = earlier ++ [piece] ∧
      ∀ other ∈ earlier, other.rule.lacksEnd = false := by
  -- induction on the run; only the last piece can be the one in question
  induction h with
  | nil => exact nomatch hpiece
  | @cons before rule lexeme rest pieces hfirst hrest ih =>
    -- behind a first piece that lacks its end there is no other
    have hlast : rule.lacksEnd = true → pieces = [] := by
      intro hrule
      have hnil := (Grammar.firstRule?_append_iff.1 hfirst).1.rest_eq_nil hrule
      rw [hnil] at hrest
      exact hrest.unique .nil
    rcases List.mem_cons.1 hpiece with rfl | hpiece
    · rw [hlast hlacks]
      exact ⟨[], rfl, nofun⟩
    · -- it is among the later pieces, and then the first piece does not lack its end
      obtain ⟨earlier, rfl, hearlier⟩ := ih hpiece
      refine ⟨⟨rule, lexeme⟩ :: earlier, rfl, List.forall_mem_cons.2 ⟨?_, hearlier⟩⟩
      refine Bool.eq_false_iff.2 fun hrule => ?_
      simpa using hlast hrule

/-- In front of more text the pieces before the last one are found again, if it has a character that
no number goes on with. -/
theorem append_last {c : Char} {more : List Char} {others : List Piece}
    (h : Run before cs (earlier ++ [piece])) (hmem : c ∈ piece.lexeme)
    (hc : Rule.constant.continues c = false)
    (hothers : ∀ last, Run last (piece.lexeme ++ more) others) :
    Run before (cs ++ more) (earlier ++ others) := by
  induction earlier generalizing before cs with
  -- only the last piece is left, and `others` stands in its place
  | nil =>
    have hlexeme := h.lexemes_eq
    rw [List.nil_append, lexemes_cons, lexemes_nil, List.append_nil] at hlexeme
    rw [← hlexeme]
    exact hothers before
  | cons first earlier ih =>
    cases h with
    | @cons _ rule lexeme rest _ hfirst hrest =>
      -- the character is still ahead of the first piece, so what follows it cannot change it
      have hin : c ∈ rest := by
        have hall : lexemes (earlier ++ [piece]) = rest := hrest.lexemes_eq
        rw [← hall, lexemes_append]
        exact List.mem_append_right _ (List.mem_append_left _ hmem)
      have hagain := Grammar.firstRule?_append hfirst (Grammar.settles_of_mem hin hc) more
      rw [List.append_assoc]
      exact .cons hagain (ih hrest)

end Run

/-! ## Texts with an open end -/

/-- Behind `earlier`, the text ends in `piece`, which lacks its end and is reported as
`diagnostic`. -/
structure EndsOpen (text : String) (earlier : List Piece) (piece : Piece)
    (diagnostic : Diagnostic) : Prop where
  run : Run none text.toList (earlier ++ [piece])
  lacksEnd : piece.rule.lacksEnd = true
  closed : ∀ other ∈ earlier, other.rule.lacksEnd = false
  problem : piece.problem? = some diagnostic.problem
  position : Text.byteLength (lexemes earlier) = diagnostic.position

namespace EndsOpen

variable {text : String} {earlier : List Piece} {piece : Piece} {diagnostic : Diagnostic}

theorem text_eq (h : EndsOpen text earlier piece diagnostic) :
    text.toList = lexemes earlier ++ piece.lexeme := by
  rw [← h.run.lexemes_eq, lexemes_append, lexemes_cons, lexemes_nil, List.append_nil]

theorem scan_eq (h : EndsOpen text earlier piece diagnostic) :
    scan text = Scan.ofPieces 0 earlier ++ ⟨[], [diagnostic]⟩ := by
  -- one diagnostic, and no token, behind what the earlier pieces give
  rw [scan_eq_ofPieces h.run, Scan.ofPieces_append, Scan.ofPieces_of_problem? h.problem,
    Nat.zero_add, h.position]

/-- The open end is reported last, and there is no token for it. -/
theorem fields_eq (h : EndsOpen text earlier piece diagnostic) :
    (scan text).tokens = (Scan.ofPieces 0 earlier).tokens ∧
      (scan text).diagnostics = (Scan.ofPieces 0 earlier).diagnostics ++ [diagnostic] := by
  rw [h.scan_eq]
  exact ⟨List.append_nil _, rfl⟩

/-- Nothing before the open end lacks its own. -/
theorem lacksEnd_eq_false (h : EndsOpen text earlier piece diagnostic) :
    ∀ other ∈ (Scan.ofPieces 0 earlier).diagnostics, other.problem.lacksEnd = false := by
  intro other hother
  obtain ⟨first, hfirst, hproblem⟩ := exists_piece_of_mem_diagnostics hother
  rw [← Piece.lacksEnd_of_problem? hproblem]
  exact h.closed first hfirst

theorem countP_le (h : EndsOpen text earlier piece diagnostic) :
    (scan text).diagnostics.countP (·.problem.lacksEnd) ≤ 1 := by
  -- all that lacks its end is the last diagnostic
  have hzero : (Scan.ofPieces 0 earlier).diagnostics.countP (·.problem.lacksEnd) = 0 :=
    List.countP_eq_zero.2 fun other hother => by simp [h.lacksEnd_eq_false other hother]
  rw [h.fields_eq.2, List.countP_append, hzero, Nat.zero_add]
  exact List.countP_le_length

/-- The problem tells the rule. -/
theorem rule_cases (h : EndsOpen text earlier piece diagnostic) :
    piece.rule = .unterminatedComment ∧ diagnostic.problem = .unterminatedComment ∨
      piece.rule = .unterminatedLiteral ∧ diagnostic.problem = .unterminatedLiteral := by
  have hlacks := h.lacksEnd
  have hproblem := h.problem
  obtain ⟨rule, lexeme⟩ := piece
  cases rule with
  | unterminatedComment => exact .inl ⟨rfl, (Option.some.inj hproblem).symm⟩
  | unterminatedLiteral => exact .inr ⟨rfl, (Option.some.inj hproblem).symm⟩
  | whitespace | comment | keyword | identifier | operator | constant | literal | punctuator
  | unrecognised => exact nomatch hlacks

/-- The rule of the open end has found nothing to close it. -/
theorem exists_fits (h : EndsOpen text earlier piece diagnostic) :
    ∃ before, piece.rule.Fits before piece.lexeme [] ∧
      piece.rule.Unclaimed before piece.lexeme [] := by
  obtain ⟨before, rest, hfirst⟩ := h.run.exists_firstRule? piece (by simp)
  obtain ⟨hfits, hfree⟩ := Grammar.firstRule?_append_iff.1 hfirst
  -- a lexeme without an end leaves nothing behind it
  obtain rfl := hfits.rest_eq_nil h.lacksEnd
  exact ⟨before, hfits, hfree⟩

/-- More text behind the open end changes nothing before it. -/
theorem scan_append (h : EndsOpen text earlier piece diagnostic) (more : String)
    {others : List Piece} (hothers : ∀ last, Run last (piece.lexeme ++ more.toList) others) :
    scan (text ++ more) =
      Scan.ofPieces 0 earlier ++ Scan.ofPieces diagnostic.position others := by
  obtain ⟨before, hfits, -⟩ := h.exists_fits
  -- its opening mark keeps every rule before it from reading on into `more`
  obtain ⟨c, hmem, hc⟩ := hfits.exists_mem h.lacksEnd
  have hrun := h.run.append_last hmem hc hothers
  rw [← String.toList_append] at hrun
  rw [scan_eq_ofPieces hrun, Scan.ofPieces_append, Nat.zero_add, h.position]

/-- Tokens end where the open end starts, or before. -/
theorem stop_le (h : EndsOpen text earlier piece diagnostic) :
    ∀ token ∈ (Scan.ofPieces 0 earlier).tokens, token.span.stop ≤ diagnostic.position := by
  intro token htoken
  -- a token is a match, and matches end where the pieces before the open end do
  obtain ⟨m, hm, hsome⟩ := List.mem_filterMap.1 htoken
  obtain ⟨kind, -, rfl⟩ := Match.token?_eq_some_iff.1 hsome
  have hstop := stop_le_of_mem_place m hm
  rwa [Nat.zero_add, h.position] at hstop

end EndsOpen

/-- What is reported without its end is an open end. -/
theorem exists_endsOpen {text : String} {diagnostic : Diagnostic}
    (h : diagnostic ∈ (scan text).diagnostics) (hlacks : diagnostic.problem.lacksEnd = true) :
    ∃ earlier piece, EndsOpen text earlier piece diagnostic := by
  obtain ⟨pieces, hrun, -⟩ := exists_run_text text
  rw [scan_eq_ofPieces hrun] at h
  obtain ⟨piece, hpiece, hproblem⟩ := exists_piece_of_mem_diagnostics h
  have hrule : piece.rule.lacksEnd = true :=
    (Piece.lacksEnd_of_problem? hproblem).trans hlacks
  obtain ⟨earlier, rfl, hearlier⟩ := hrun.eq_append_of_lacksEnd hpiece hrule
  -- what is reported of an earlier piece does not lack its end
  rw [Scan.ofPieces_append, Scan.ofPieces_of_problem? hproblem, Nat.zero_add,
    Scan.diagnostics_append, List.mem_append] at h
  rcases h with hmem | hmem
  · obtain ⟨other, hother, hsome⟩ := exists_piece_of_mem_diagnostics hmem
    have := (Piece.lacksEnd_of_problem? hsome).symm.trans (hearlier other hother)
    rw [hlacks] at this
    exact nomatch this
  · -- the last diagnostic, which starts behind all that the earlier pieces cover
    refine ⟨earlier, piece, hrun, hrule, hearlier, hproblem, ?_⟩
    rw [List.mem_singleton.1 hmem]

/-! ## Closing a comment -/

/-- A star behind a text completes no closing mark. -/
theorem not_infix_concat_star {body : List Char} (h : ¬ ['*', '/'] <:+: body) :
    ¬ ['*', '/'] <:+: body ++ ['*'] := by
  rw [List.infix_concat_iff, not_or]
  refine ⟨?_, h⟩
  -- its last character would be a slash
  intro hsuffix
  obtain ⟨front, hfront⟩ := hsuffix
  have hlast := congrArg List.getLast? hfront
  simp at hlast

/-- A comment that lacks its end is closed by the mark, whatever stands before it. -/
theorem Run.closed_comment {body : List Char} (h : ¬ ['*', '/'] <:+: body) (last : Option Char) :
    Run last (['/', '*'] ++ body ++ ['*', '/']) [⟨.comment, ['/', '*'] ++ body ++ ['*', '/']⟩] := by
  rw [List.append_assoc]
  exact .single (.inr ⟨body, rfl, not_infix_concat_star h⟩) trivial

theorem EndsOpen.scan_append_mark {text : String} {earlier : List Piece} {piece : Piece}
    {diagnostic : Diagnostic} (h : EndsOpen text earlier piece diagnostic)
    (hproblem : diagnostic.problem = .unterminatedComment) :
    scan (text ++ "*/") = Scan.ofPieces 0 earlier := by
  have hrule : piece.rule = .unterminatedComment :=
    h.rule_cases.elim And.left fun hliteral => nomatch hproblem.symm.trans hliteral.2
  obtain ⟨before, hfits, hfree⟩ := h.exists_fits
  -- that no rule before it fits means that the body has no closing mark
  rw [hrule] at hfits hfree
  obtain ⟨body, hbody⟩ := hfits.1
  rw [← hbody] at hfree
  have hcomment := Run.closed_comment (hfree body rfl)
  rw [hbody] at hcomment
  -- a comment gives neither a token nor a diagnostic
  rw [h.scan_append "*/" hcomment, Scan.ofPieces_of_skip rfl, Scan.append_empty]

/-! ## Closing a literal -/

namespace EndsOpen

variable {text : String} {earlier : List Piece} {piece : Piece} {diagnostic : Diagnostic}
  {body : List Char}

theorem exists_openBody (h : EndsOpen text earlier piece diagnostic)
    (hproblem : diagnostic.problem = .unterminatedLiteral) :
    ∃ body, piece.lexeme = '"' :: body ∧ OpenBody body := by
  have hrule : piece.rule = .unterminatedLiteral :=
    h.rule_cases.elim (fun hcomment => nomatch hproblem.symm.trans hcomment.2) And.left
  obtain ⟨before, hfits, hfree⟩ := h.exists_fits
  -- that `literal` does not fit means that no quote in the body closes it
  rw [hrule] at hfits hfree
  obtain ⟨body, hbody⟩ := hfits.1
  refine ⟨body, hbody.symm, fun closed back happ => hfree closed back ?_⟩
  rw [← hbody, happ]
  rfl

/-- However the text is split at the open end, the same stands behind the quote. -/
theorem body_eq (h : EndsOpen text earlier piece diagnostic) (hlexeme : piece.lexeme = '"' :: body)
    {front body' : String} (hsplit : text = front ++ "\"" ++ body')
    (hfront : front.utf8ByteSize = diagnostic.position) : body = body'.toList := by
  have hchars : lexemes earlier ++ '"' :: body = front.toList ++ '"' :: body'.toList := by
    rw [← hlexeme, ← h.text_eq, hsplit]
    simp
  -- both fronts have as many bytes as come before the position
  have hlength : Text.byteLength (lexemes earlier) = Text.byteLength front.toList := by
    rw [h.position, Text.byteLength_toList, hfront]
  exact (List.cons.inj (Text.append_inj_of_byteLength hchars hlength).2).2

/-- Where no backslash takes it, the quote makes the open end a token. -/
theorem scan_append_quote (h : EndsOpen text earlier piece diagnostic)
    (hlexeme : piece.lexeme = '"' :: body) (hbody : LiteralBody body) :
    scan (text ++ "\"") = Scan.ofPieces 0 earlier ++
      ⟨[⟨.literal, String.ofList ('"' :: body ++ ['"']),
        ⟨diagnostic.position, text.utf8ByteSize + 1⟩⟩], []⟩ := by
  -- the literal rule now fits at the open end, whatever comes before it
  have hliteral : ∀ last, Run last (piece.lexeme ++ ['"']) [⟨.literal, '"' :: body ++ ['"']⟩] := by
    intro last
    rw [hlexeme]
    exact .single ⟨body, rfl, hbody⟩ trivial
  -- the token ends at the end of the longer text
  have hstop : diagnostic.position + Text.byteLength ('"' :: body ++ ['"']) =
      text.utf8ByteSize + 1 := by
    rw [← Text.byteLength_toList text, h.text_eq, hlexeme, Text.byteLength_append,
      Text.byteLength_append, h.position, Nat.add_assoc]
    rfl
  rw [h.scan_append "\"" hliteral, Scan.ofPieces_of_emit rfl, hstop]

/-- Where a backslash takes it, the quote changes nothing. -/
theorem scan_append_taken (h : EndsOpen text earlier piece diagnostic)
    (hproblem : diagnostic.problem = .unterminatedLiteral) (hlexeme : piece.lexeme = '"' :: body)
    (hbody : OpenBody (body ++ ['"'])) : scan (text ++ "\"") = scan text := by
  -- the quote has become part of the body, and again nothing closes it
  have hopen : ∀ last, Run last (piece.lexeme ++ ['"'])
      [⟨.unterminatedLiteral, piece.lexeme ++ ['"']⟩] := by
    intro last
    rw [hlexeme]
    exact .single ⟨⟨_, rfl⟩, rfl⟩ fun closed back happ => hbody closed back (List.cons.inj happ).2
  have hsame : (⟨.unterminatedLiteral, piece.lexeme ++ ['"']⟩ : Piece).problem? =
      some .unterminatedLiteral := rfl
  rw [h.scan_append "\"" hopen, h.scan_eq, Scan.ofPieces_of_problem? hsame, ← hproblem]

end EndsOpen

/-- What lacks its end is the last thing that is found: at most one problem of this kind is reported,
no other problem after it, and no token ends behind the place where it starts.  Closing it repairs
just that.  With its closing mark a comment is no longer reported, and all else stays as it was.  With
its closing quote a literal becomes a token instead, unless a backslash takes the quote: then nothing
changes. -/
theorem closing_repairs (text : String) :
    (scan text).diagnostics.countP (·.problem.lacksEnd) ≤ 1 ∧
    ∀ diagnostic ∈ (scan text).diagnostics, diagnostic.problem.lacksEnd = true →
      (scan text).diagnostics.getLast? = some diagnostic ∧
      (∀ token ∈ (scan text).tokens, token.span.stop ≤ diagnostic.position) ∧
      (diagnostic.problem = .unterminatedComment →
        scan (text ++ "*/") = ⟨(scan text).tokens, (scan text).diagnostics.dropLast⟩) ∧
      (diagnostic.problem = .unterminatedLiteral →
        Text.StandsAt text "\"" diagnostic.position ∧
        ∀ front body, text = front ++ "\"" ++ body → front.utf8ByteSize = diagnostic.position →
          (Even (backslashes body.toList) →
            scan (text ++ "\"") =
              ⟨(scan text).tokens ++ [⟨.literal, "\"" ++ body ++ "\"",
                ⟨diagnostic.position, text.utf8ByteSize + 1⟩⟩],
                (scan text).diagnostics.dropLast⟩) ∧
          (Odd (backslashes body.toList) → scan (text ++ "\"") = scan text)) := by
  constructor
  · -- a diagnostic of this kind is an open end, and there is no second one
    by_cases hopen : ∃ diagnostic ∈ (scan text).diagnostics, diagnostic.problem.lacksEnd = true
    · obtain ⟨diagnostic, hmem, hlacks⟩ := hopen
      obtain ⟨earlier, piece, h⟩ := exists_endsOpen hmem hlacks
      exact h.countP_le
    · rw [List.countP_eq_zero.2 fun other hother hlacks => hopen ⟨other, hother, hlacks⟩]
      exact Nat.zero_le 1
  · intro diagnostic hmem hlacks
    -- all four parts are read off the open end that the diagnostic stands for
    obtain ⟨earlier, piece, h⟩ := exists_endsOpen hmem hlacks
    obtain ⟨htokens, hdiagnostics⟩ := h.fields_eq
    refine ⟨?_, ?_, ?_, ?_⟩
    · -- it is reported last
      rw [hdiagnostics, List.getLast?_concat]
    · -- no token ends behind it
      rw [htokens]
      exact h.stop_le
    · -- a closing mark takes it out of the diagnostics
      intro hproblem
      rw [h.scan_append_mark hproblem, htokens, hdiagnostics, List.dropLast_concat]
    · -- the quote that opens it stands at the position, however the text is split there
      intro hproblem
      obtain ⟨body, hlexeme, hopen⟩ := h.exists_openBody hproblem
      have htext : text.toList = lexemes earlier ++ '"' :: body := hlexeme ▸ h.text_eq
      refine ⟨Text.standsAt_iff.2 ⟨lexemes earlier, body, htext, h.position⟩, ?_⟩
      intro front body' hsplit hfront
      obtain rfl := h.body_eq hlexeme hsplit hfront
      constructor
      · -- no backslash is left over to take the quote: the literal becomes the last token
        intro heven
        have hvalue : String.ofList ('"' :: body'.toList ++ ['"']) = "\"" ++ body' ++ "\"" := by
          rw [← String.toList_inj]
          simp
        rw [h.scan_append_quote hlexeme (hopen.literalBody heven), hvalue, htokens, hdiagnostics,
          List.dropLast_concat]
        -- what follows the open end in the diagnostics was nothing
        show Scan.mk _ _ = Scan.mk _ _
        rw [List.append_nil]
      · -- the last backslash takes the quote
        intro hodd
        exact h.scan_append_taken hproblem hlexeme (hopen.concat_quote hodd)

/-- A star before the appended mark belongs to the comment.  Two backslashes leave the quote alone,
and one takes it. -/
theorem closing_repairs_star_backslash :
    (⟨.unterminatedComment, 3⟩ : Diagnostic) ∈ (scan "1e+/* *").diagnostics ∧
    scan ("1e+/* *" ++ "*/") = ⟨(scan "1e+/* *").tokens, (scan "1e+/* *").diagnostics.dropLast⟩ ∧
    (⟨.unterminatedLiteral, 1⟩ : Diagnostic) ∈ (scan "f\"é\\\\").diagnostics ∧
    scan ("f\"é\\\\" ++ "\"") = ⟨(scan "f\"é\\\\").tokens ++
      [⟨.literal, "\"é\\\\\"", ⟨1, 7⟩⟩], (scan "f\"é\\\\").diagnostics.dropLast⟩ ∧
    (⟨.unterminatedLiteral, 0⟩ : Diagnostic) ∈ (scan "\"\\").diagnostics ∧
    scan ("\"\\" ++ "\"") = scan "\"\\" := by
  have hcomment : (⟨.unterminatedComment, 3⟩ : Diagnostic) ∈ (scan "1e+/* *").diagnostics := by
    decide +kernel
  have htwo : (⟨.unterminatedLiteral, 1⟩ : Diagnostic) ∈ (scan "f\"é\\\\").diagnostics := by
    decide +kernel
  have hone : (⟨.unterminatedLiteral, 0⟩ : Diagnostic) ∈ (scan "\"\\").diagnostics := by
    decide +kernel
  obtain ⟨-, -, hmark, -⟩ := (closing_repairs "1e+/* *").2 _ hcomment rfl
  obtain ⟨-, -, -, hquote⟩ := (closing_repairs "f\"é\\\\").2 _ htwo rfl
  obtain ⟨-, -, -, htaken⟩ := (closing_repairs "\"\\").2 _ hone rfl
  have heven := ((hquote rfl).2 "f" "é\\\\" (by decide) (by decide)).1 (by decide)
  have hodd := ((htaken rfl).2 "" "\\" (by decide) (by decide)).2 (by decide)
  exact ⟨hcomment, hmark rfl, htwo, heven, hone, hodd⟩

end TokenCensus

import TokenCensus.Proofs.Content

/-!
# Trivia can be condensed

White space and comments only keep other lexemes apart, and one space does that as well as any run
of them.  So a text can be condensed: of each run of trivia one space is left, and the tokens and
problems of the text stay what they are, in the order in which they alternate.

The proof follows the run of the text and builds that of the condensed text.  Two things change
around a lexeme.  What comes behind it may now be a space, which continues no lexeme that is left.
What is before it may now be a space too; it was the end of a comment or a blank, and a word can
end there only in a comment up to the end of a line, behind which there is a newline.

## Key results

- `Run.run_condense`: the condensed pieces are the run of the condensed text
- `condense_condense`: condensing again changes nothing
- `scan_condensed`: condensing a text leaves tokens and problems as they are
-/

namespace TokenCensus

open Grammar (Rule Stops firstRule? isBlank isWord)

/-! ## Condensed texts -/

/-- One space for each run of trivia.  `behind` tells whether there is trivia before the pieces, of
which a space has been left already. -/
def condense (behind : Bool) : List Piece → List Piece
  | [] => []
  | piece :: pieces =>
    if piece.rule.action.skips then
      if behind then condense true pieces
      else ⟨.whitespace, [' ']⟩ :: condense true pieces
    else piece :: condense false pieces

/-- The text with one space in place of each run of trivia. -/
def condensed (text : String) : String :=
  String.ofList (lexemes (condense false ((allMatches text).map Match.piece)))

theorem condense_of_skips {piece : Piece} (h : piece.rule.action.skips = true)
    (pieces : List Piece) :
    condense false (piece :: pieces) = ⟨.whitespace, [' ']⟩ :: condense true pieces := by
  rw [condense, if_pos h, if_neg Bool.false_ne_true]

theorem condense_true_of_skips {piece : Piece} (h : piece.rule.action.skips = true)
    (pieces : List Piece) : condense true (piece :: pieces) = condense true pieces := by
  rw [condense, if_pos h, if_pos rfl]

theorem condense_of_not_skips {piece : Piece} (h : ¬ piece.rule.action.skips = true)
    (behind : Bool) (pieces : List Piece) :
    condense behind (piece :: pieces) = piece :: condense false pieces := by
  rw [condense, if_neg h]

/-- Nothing but trivia is taken away or added. -/
theorem filterMap_condense {α : Type} {f : Piece → Option α}
    (h : ∀ piece : Piece, piece.rule.action.skips = true → f piece = none) (behind : Bool)
    (pieces : List Piece) : (condense behind pieces).filterMap f = pieces.filterMap f := by
  induction pieces generalizing behind with
  | nil => rfl
  | cons piece pieces ih =>
    by_cases hskip : piece.rule.action.skips = true
    · rw [List.filterMap_cons_none (h piece hskip)]
      cases behind with
      -- a space is left already
      | true => rw [condense_true_of_skips hskip, ih]
      -- the first of a run leaves its space, which is trivia too
      | false => rw [condense_of_skips hskip, List.filterMap_cons_none (h _ rfl), ih]
    · -- what is no trivia is left
      rw [condense_of_not_skips hskip, List.filterMap_cons, List.filterMap_cons, ih]

theorem condense_condense (behind : Bool) (pieces : List Piece) :
    condense behind (condense behind pieces) = condense behind pieces := by
  induction pieces generalizing behind with
  -- the three cases are those of `condense`
  | nil => rfl
  | cons piece pieces ih =>
    by_cases hskip : piece.rule.action.skips = true
    · cases behind with
      | true => rw [condense_true_of_skips hskip, ih]
      | false => rw [condense_of_skips hskip, condense_of_skips rfl, ih]
    · rw [condense_of_not_skips hskip, condense_of_not_skips hskip, ih]

/-! ## What trivia keeps apart -/

namespace Grammar

/-- No word that ends before `rest` is continued by it. -/
def Detached (before : Option Char) (rest : List Char) : Prop :=
  before.any isWord = true → ∀ c ∈ rest.head?, isBlank c = true

/-- Trivia detaches what comes behind it. -/
theorem detached_of_skips {before : Option Char} {rule : Rule} {lexeme rest : List Char}
    (h : firstRule? before (lexeme ++ rest) = some (rule, lexeme.length))
    (hskip : rule.action.skips = true) : Detached lexeme.getLast? rest := by
  have hfits := (firstRule?_append_iff.1 h).1
  rcases Rule.eq_of_skips hskip with rfl | rfl
  · -- a run of blanks does not end in a word
    intro hword
    rw [any_isWord_getLast?_blanks hfits.2.1] at hword
    exact nomatch hword
  · rcases hfits with ⟨-, hstops⟩ | ⟨body, rfl, -⟩
    · -- a comment up to the end of its line may end in a word, but leaves the newline
      intro _ c hc
      have hnewline : c = '\n' := by simpa using hstops c hc
      rw [hnewline]
      decide
    · -- a closed comment ends in its slash
      intro hword
      rw [List.getLast?_cons, List.getLast?_cons, List.getLast?_append] at hword
      exact absurd (show isWord '/' = true from hword) (by decide)

/-- What is detached and does not start with a blank stands behind no word. -/
theorem Detached.any_isWord_eq_false {before : Option Char} {cs : List Char}
    (h : Detached before cs) (hne : cs ≠ []) (hstops : Stops isBlank cs) :
    before.any isWord = false := by
  obtain ⟨c, tail, rfl⟩ := List.exists_cons_of_ne_nil hne
  -- if a word ended before it, it would have to start with a blank
  refine Bool.eq_false_iff.2 fun hword => ?_
  have hblank := h hword c rfl
  rw [stops_cons.1 hstops] at hblank
  exact nomatch hblank

/-- A space continues no lexeme but trivia, and what ends only at the end of the text. -/
theorem Rule.Fits.continues_space {rule : Rule} {before : Option Char} {lexeme rest : List Char}
    (h : rule.Fits before lexeme rest) (hrest : rest ≠ []) (hskip : ¬ rule.action.skips = true) :
    rule.continues ' ' = false := by
  cases rule with
  | whitespace => exact absurd rfl hskip
  | comment => exact absurd rfl hskip
  -- these two end with the text
  | unterminatedComment => exact absurd h.2 hrest
  | unterminatedLiteral => exact absurd h.2 hrest
  | _ => decide

end Grammar

/-! ## The run of a condensed text -/

namespace Run

variable {before : Option Char} {cs : List Char} {pieces : List Piece}

/-- Up to the first trivia a text and the condensed text are the same. -/
theorem exists_split_condense (h : Run before cs pieces) :
    ∃ front tail tail', cs = front ++ tail ∧
      lexemes (condense false pieces) = front ++ tail' ∧
      ∀ c ∈ tail'.head?, c = ' ' ∧ cs ≠ [] := by
  induction h with
  | nil => exact ⟨[], [], [], rfl, rfl, nofun⟩
  | @cons before rule lexeme rest pieces hfirst _ ih =>
    have hne : lexeme ≠ [] := List.length_pos_iff.1 (Grammar.firstRule?_pos hfirst)
    by_cases hskip : rule.action.skips = true
    · refine ⟨[], lexeme ++ rest, ' ' :: lexemes (condense true pieces), rfl, ?_, ?_⟩
      · rw [condense_of_skips hskip]
        rfl
      · intro c hc
        exact ⟨(Option.some.inj hc).symm, by simp [hne]⟩
    · -- a lexeme that is left stands in front of both
      obtain ⟨front, tail, tail', hrest, hcondense, hspace⟩ := ih
      refine ⟨lexeme ++ front, tail, tail', ?_, ?_, fun c hc => ⟨(hspace c hc).1, by simp [hne]⟩⟩
      · rw [hrest, List.append_assoc]
      · rw [condense_of_not_skips hskip, lexemes_cons, hcondense, List.append_assoc]

/-- A lexeme that is left is found again in the condensed text. -/
theorem firstRule?_condense {before' : Option Char} {rule : Rule} {lexeme rest : List Char}
    (h : Run lexeme.getLast? rest pieces)
    (hfirst : firstRule? before (lexeme ++ rest) = some (rule, lexeme.length))
    (hskip : ¬ rule.action.skips = true)
    (hbefore : before'.any isWord = before.any isWord) :
    firstRule? before' (lexeme ++ lexemes (condense false pieces)) =
      some (rule, lexeme.length) := by
  have hfits := (Grammar.firstRule?_append_iff.1 hfirst).1
  -- from here on both texts go on alike, up to the space
  obtain ⟨front, tail, tail', hrest, hcondense, hspace⟩ := h.exists_split_condense
  rw [hrest] at hfirst
  rw [hcondense]
  refine Grammar.firstRule?_replace hfirst (fun _ => hbefore) fun c hc => ?_
  obtain ⟨rfl, hne⟩ := hspace c hc
  exact hfits.continues_space hne hskip

/-- The condensed pieces are the run of the condensed text.  Behind trivia, they are its run behind
the space that is left of it. -/
theorem run_condense (h : Run before cs pieces) :
    Run before (lexemes (condense false pieces)) (condense false pieces) ∧
      (Grammar.Detached before cs →
        Run (some ' ') (lexemes (condense true pieces)) (condense true pieces) ∧
          Stops isBlank (lexemes (condense true pieces))) := by
  induction h with
  | nil => exact ⟨.nil, fun _ => ⟨.nil, Grammar.stops_nil _⟩⟩
  | @cons before rule lexeme rest pieces hfirst hrest ih =>
    by_cases hskip : rule.action.skips = true
    · -- behind trivia the condensed rest is a run behind a space
      obtain ⟨hrun, hstops⟩ := ih.2 (Grammar.detached_of_skips hfirst hskip)
      have hspace := Grammar.firstRule?_space before hstops
      rw [condense_of_skips hskip, condense_true_of_skips hskip]
      exact ⟨.cons hspace hrun, fun _ => ⟨hrun, hstops⟩⟩
    · -- what is no trivia is found behind the same character and behind a space
      have hstep : ∀ before' : Option Char, before'.any isWord = before.any isWord →
          firstRule? before' (lexeme ++ lexemes (condense false pieces)) =
            some (rule, lexeme.length) :=
        fun _ hbefore => hrest.firstRule?_condense hfirst hskip hbefore
      have hblank : rule ≠ .whitespace := by
        intro heq
        subst heq
        exact hskip rfl
      rw [condense_of_not_skips hskip, condense_of_not_skips hskip, lexemes_cons]
      refine ⟨.cons (hstep before rfl) ih.1, fun hdetached => ?_⟩
      have hne : lexeme ++ rest ≠ [] := by
        have := Grammar.firstRule?_pos hfirst
        simp [List.length_pos_iff.1 this]
      -- no word ends before it, so a space is as good
      have hword := hdetached.any_isWord_eq_false hne
        (Grammar.stops_isBlank_of_firstRule? hfirst hblank)
      have hspace := hstep (some ' ') hword.symm
      exact ⟨.cons hspace ih.1, Grammar.stops_isBlank_of_firstRule? hspace hblank⟩

end Run

/-- The run of a condensed text, from the run of the text. -/
theorem run_condensed {text : String} {pieces : List Piece} (h : Run none text.toList pieces) :
    condensed text = String.ofList (lexemes (condense false pieces)) ∧
      Run none (condensed text).toList (condense false pieces) := by
  have hall : allMatches text = place 0 pieces := h.found_eq 0
  have hcondensed : condensed text = String.ofList (lexemes (condense false pieces)) := by
    rw [condensed, hall, place_map_piece]
  refine ⟨hcondensed, ?_⟩
  rw [hcondensed, String.toList_ofList]
  exact h.run_condense.1

/-- Comments and white space do not matter.  With one space in place of each run of them, a source
holds the same tokens and the same problems, and they alternate as before; and there is nothing left
to condense. -/
theorem scan_condensed (text : String) :
    (scan (condensed text)).tokens.map Token.content = (scan text).tokens.map Token.content ∧
    (scan (condensed text)).diagnostics.map Diagnostic.problem =
      (scan text).diagnostics.map Diagnostic.problem ∧
    (scan (condensed text)).timeline = (scan text).timeline ∧
    condensed (condensed text) = condensed text := by
  obtain ⟨pieces, hpieces⟩ := exists_run none text.toList
  obtain ⟨hcondensed, hrun⟩ := run_condensed hpieces
  rw [scan_eq_ofPieces hrun, scan_eq_ofPieces hpieces]
  refine ⟨?_, ?_, ?_, ?_⟩
  · rw [Scan.map_content_ofPieces, Scan.map_content_ofPieces]
    exact filterMap_condense (fun _ h => (Piece.item?_of_skips h).1) false pieces
  · rw [Scan.map_problem_ofPieces, Scan.map_problem_ofPieces]
    exact filterMap_condense (fun _ h => (Piece.item?_of_skips h).2.1) false pieces
  · rw [Scan.timeline_ofPieces hrun.lexeme_ne_nil, Scan.timeline_ofPieces hpieces.lexeme_ne_nil]
    exact filterMap_condense (fun _ h => (Piece.item?_of_skips h).2.2) false pieces
  · -- the condensed text is condensed already, piece by piece
    rw [(run_condensed hrun).1, condense_condense, ← hcondensed]

example : condensed "a/*b*/ // c\n+ \"/**/\" /*" = "a + \"/**/\" /*" := by decide +kernel

end TokenCensus

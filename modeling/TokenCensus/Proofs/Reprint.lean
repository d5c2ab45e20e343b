import TokenCensus.Proofs.Content

/-!
# Printing tokens and reading them again

The tokens of a source, printed with a space between any two, are read back as they were, with one
exception: an identifier that spells a reserved word.  There are such identifiers, since a reserved
word must not follow a letter or digit: `1if` is a number and the identifier `if`.  Printed apart,
the second is the reserved word.

Whatever a token was found behind and in front of, it is found again between two spaces.  That is
the property `StandsApart` of a piece, and pieces that have it can be put together with spaces.

## Key results

- `standsApart_apart`: every token is found again between spaces, by its own rule or as a reserved
  word
- `run_intersperse`: pieces with spaces between them are a run
- `scan_reprint`: the tokens of a printed source
-/

namespace TokenCensus

open Grammar (Rule Stops firstRule? isBlank isWord keywords keywordSpellings
  ofList_mem_keywords)

/-- The tokens of a source with a space between any two. -/
def reprint (text : String) : String :=
  " ".intercalate ((scan text).tokens.map Token.value)

/-! ## A token between spaces -/

namespace Piece

/-- The space that is printed between two tokens. -/
def space : Piece := ⟨.whitespace, [' ']⟩

/-- The piece as it is found apart from other words. -/
def apart (piece : Piece) : Piece :=
  if piece.rule = .identifier ∧ String.ofList piece.lexeme ∈ keywords then
    ⟨.keyword, piece.lexeme⟩
  else piece

/-- The piece is found between any two spaces, and at both ends of a text. -/
def StandsApart (piece : Piece) : Prop :=
  ∀ before rest, before.any isWord = false → (∀ c ∈ rest.head?, c = ' ') →
    firstRule? before (piece.lexeme ++ rest) = some (piece.rule, piece.lexeme.length)

theorem apart_of_reserved {lexeme : List Char} (h : lexeme ∈ keywordSpellings) :
    apart ⟨.identifier, lexeme⟩ = ⟨.keyword, lexeme⟩ :=
  if_pos ⟨rfl, ofList_mem_keywords.2 h⟩

theorem apart_of_not_reserved {rule : Rule} {lexeme : List Char}
    (h : ¬ (rule = .identifier ∧ lexeme ∈ keywordSpellings)) :
    apart ⟨rule, lexeme⟩ = ⟨rule, lexeme⟩ :=
  if_neg fun hword => h ⟨hword.1, ofList_mem_keywords.1 hword.2⟩

@[simp] theorem lexeme_apart (piece : Piece) : piece.apart.lexeme = piece.lexeme := by
  unfold apart
  split <;> rfl

theorem emits_apart {piece : Piece} (h : piece.rule.action.emits = true) :
    piece.apart.rule.action.emits = true := by
  unfold apart
  split
  · rfl
  · exact h

end Piece

theorem Grammar.Rule.continues_space_of_emits {rule : Rule} (h : rule.action.emits = true) :
    rule.continues ' ' = false := by
  cases rule with
  | whitespace | comment | unterminatedComment | unterminatedLiteral | unrecognised =>
    exact nomatch h
  | _ => decide

/-- Every token is found again between spaces, by its own rule or as a reserved word. -/
theorem standsApart_apart {before : Option Char} {rule : Rule} {lexeme rest : List Char}
    (h : firstRule? before (lexeme ++ rest) = some (rule, lexeme.length))
    (hemits : rule.action.emits = true) : (Piece.apart ⟨rule, lexeme⟩).StandsApart := by
  intro before' rest' hbefore' hrest'
  -- a space ends every token
  have hstops : Stops rule.continues rest' := by
    intro c hc
    rw [hrest' c hc]
    exact Grammar.Rule.continues_space_of_emits hemits
  by_cases hword : rule = .identifier ∧ lexeme ∈ keywordSpellings
  · -- a word that was kept from being reserved by what stood before it no longer is
    obtain ⟨rfl, hmem⟩ := hword
    rw [Piece.apart_of_reserved hmem]
    exact Grammar.firstRule?_append_iff.2 ⟨⟨hbefore', hmem, hstops⟩, trivial⟩
  · have hfits := (Grammar.firstRule?_append_iff.1 h).1
    -- what stands before matters for reserved words only, and those were found at a boundary
    have hbefore : rule = .keyword ∨ rule = .identifier ∧ lexeme ∈ keywordSpellings →
        before'.any isWord = before.any isWord := by
      intro h
      rcases h with rfl | hword'
      · rw [hbefore', hfits.1]
      · exact absurd hword' hword
    have hfirst : firstRule? before (lexeme ++ ([] ++ rest)) = some (rule, lexeme.length) := h
    rw [Piece.apart_of_not_reserved hword]
    exact Grammar.firstRule?_replace hfirst hbefore hstops

/-! ## Tokens with spaces between them -/

theorem Run.stops_isBlank {before : Option Char} {cs : List Char} {piece : Piece}
    {pieces : List Piece} (h : Run before cs (piece :: pieces))
    (hemits : piece.rule.action.emits = true) : Stops isBlank cs := by
  cases h with
  | cons hfirst _ =>
    -- the lexeme is no white space, so it does not start with any
    refine Grammar.stops_isBlank_of_firstRule? hfirst ?_
    intro heq
    subst heq
    exact nomatch hemits

theorem exists_intersperse_cons (piece : Piece) (pieces : List Piece) :
    ∃ others, (piece :: pieces).intersperse .space = piece :: others := by
  cases pieces with
  | nil => exact ⟨[], rfl⟩
  | cons => exact ⟨_, rfl⟩

/-- Tokens that stand apart, with spaces between them, are a run. -/
theorem run_intersperse {pieces : List Piece} {before : Option Char}
    (hapart : ∀ piece ∈ pieces, piece.rule.action.emits = true ∧ piece.StandsApart)
    (hbefore : before.any isWord = false) :
    Run before (lexemes (pieces.intersperse .space)) (pieces.intersperse .space) := by
  induction pieces generalizing before with
  | nil => exact .nil
  | cons piece pieces ih =>
    have hpiece := (hapart piece List.mem_cons_self).2
    have hothers : ∀ other ∈ pieces, other.rule.action.emits = true ∧ other.StandsApart :=
      fun other hother => hapart other (List.mem_cons_of_mem _ hother)
    -- the last token ends the text, and any other has a space behind it
    cases pieces with
    | nil => exact .cons (hpiece before [] hbefore nofun) .nil
    | cons next pieces =>
      have hrun : Run (some ' ') (lexemes ((next :: pieces).intersperse .space)) _ :=
        ih hothers (by decide)
      -- the next token does not start with a blank, so the space stays by itself
      have hstops : Stops isBlank (lexemes ((next :: pieces).intersperse .space)) := by
        obtain ⟨others, heq⟩ := exists_intersperse_cons next pieces
        rw [heq] at hrun ⊢
        exact hrun.stops_isBlank (hothers next List.mem_cons_self).1
      have hspace := Grammar.firstRule?_space piece.lexeme.getLast? hstops
      rw [List.intersperse_cons_cons, lexemes_cons, lexemes_cons]
      refine .cons (hpiece before _ hbefore ?_) (.cons hspace hrun)
      intro c hc
      exact (Option.some.inj hc).symm

/-- Nothing becomes of the spaces. -/
theorem filterMap_intersperse_space {α : Type} {f : Piece → Option α}
    (h : f .space = none) (pieces : List Piece) :
    (pieces.intersperse .space).filterMap f = pieces.filterMap f := by
  induction pieces with
  | nil => rfl
  | cons piece pieces ih =>
    cases pieces with
    | nil => rfl
    | cons next pieces =>
      rw [List.intersperse_cons_cons, List.filterMap_cons, List.filterMap_cons_none h, ih]
      exact List.filterMap_cons.symm

theorem lexemes_intersperse_space (pieces : List Piece) :
    lexemes (pieces.intersperse .space) = [' '].intercalate (pieces.map Piece.lexeme) := by
  induction pieces with
  | nil => rfl
  | cons piece pieces ih =>
    cases pieces with
    | nil => simp
    | cons next pieces =>
      rw [List.intersperse_cons_cons, lexemes_cons, lexemes_cons, ih]
      simp only [List.map_cons, List.intercalate_cons_cons, List.append_assoc]
      rfl

/-! ## The tokens of a run -/

/-- The pieces that become tokens, as they are found apart. -/
def printed (pieces : List Piece) : List Piece :=
  (pieces.filter (·.rule.action.emits)).map Piece.apart

theorem printed_cons_of_emits {piece : Piece} (h : piece.rule.action.emits = true)
    (pieces : List Piece) : printed (piece :: pieces) = piece.apart :: printed pieces := by
  unfold printed
  rw [List.filter_cons, if_pos h, List.map_cons]

theorem printed_cons_of_not_emits {piece : Piece} (h : ¬ piece.rule.action.emits = true)
    (pieces : List Piece) : printed (piece :: pieces) = printed pieces := by
  unfold printed
  rw [List.filter_cons, if_neg h]

/-- What a token is when it stands apart. -/
def contentApart (content : Kind × String) : Kind × String :=
  (if content.1 = .identifier ∧ content.2 ∈ keywords then .keyword else content.1, content.2)

theorem content?_apart (piece : Piece) :
    piece.apart.content? = piece.content?.map contentApart := by
  obtain ⟨rule, lexeme⟩ := piece
  -- the kind changes for an identifier that spells a reserved word, and for nothing else
  by_cases hword : rule = .identifier ∧ lexeme ∈ keywordSpellings
  · obtain ⟨rfl, hmem⟩ := hword
    rw [Piece.apart_of_reserved hmem]
    have hvalue := ofList_mem_keywords.2 hmem
    simp [Piece.content?, Rule.action, contentApart, hvalue]
  · rw [Piece.apart_of_not_reserved hword]
    cases rule with
    | identifier =>
      have hmem : String.ofList lexeme ∉ keywords := fun h =>
        hword ⟨rfl, ofList_mem_keywords.1 h⟩
      simp [Piece.content?, Rule.action, contentApart, hmem]
    | _ => simp [Piece.content?, Rule.action, contentApart]

theorem content?_of_emits {piece : Piece} (h : piece.rule.action.emits = true) :
    ∃ kind, piece.content? = some (kind, String.ofList piece.lexeme) := by
  obtain ⟨kind, haction⟩ := Grammar.Action.eq_of_emits h
  exact ⟨kind, by rw [Piece.content?, haction]⟩

theorem content?_eq_none_of_not_emits {piece : Piece} (h : ¬ piece.rule.action.emits = true) :
    piece.content? = none := by
  unfold Piece.content?
  cases haction : piece.rule.action with
  | emit kind => exact absurd (by rw [haction]; rfl) h
  | skip kind => rfl
  | diagnose fault => rfl

theorem filterMap_content?_printed (pieces : List Piece) :
    (printed pieces).filterMap Piece.content? =
      (pieces.filterMap Piece.content?).map contentApart := by
  induction pieces with
  | nil => rfl
  | cons piece pieces ih =>
    by_cases hemits : piece.rule.action.emits = true
    · rw [printed_cons_of_emits hemits, List.filterMap_cons, List.filterMap_cons, content?_apart,
        ih]
      cases piece.content? <;> rfl
    · rw [printed_cons_of_not_emits hemits, ih,
        List.filterMap_cons_none (content?_eq_none_of_not_emits hemits)]

/-- The texts of the tokens are the lexemes of the pieces that become tokens. -/
theorem map_lexeme_printed (pieces : List Piece) :
    (printed pieces).map Piece.lexeme =
      (pieces.filterMap Piece.content?).map fun content => content.2.toList := by
  induction pieces with
  | nil => rfl
  | cons piece pieces ih =>
    by_cases hemits : piece.rule.action.emits = true
    · obtain ⟨kind, hcontent⟩ := content?_of_emits hemits
      rw [printed_cons_of_emits hemits, List.map_cons, ih, List.filterMap_cons_some hcontent,
        List.map_cons, Piece.lexeme_apart, String.toList_ofList]
    · rw [printed_cons_of_not_emits hemits, ih,
        List.filterMap_cons_none (content?_eq_none_of_not_emits hemits)]

/-! ## The run of a printed source -/

/-- The run of a printed source, from the run of the source. -/
theorem run_reprint {text : String} {pieces : List Piece} (h : Run none text.toList pieces) :
    Run none (reprint text).toList ((printed pieces).intersperse .space) := by
  -- what is printed are the lexemes, with spaces between them
  have hchars : (reprint text).toList = lexemes ((printed pieces).intersperse .space) := by
    rw [reprint, String.toList_intercalate, lexemes_intersperse_space, map_lexeme_printed,
      ← Scan.map_content_ofPieces 0, ← scan_eq_ofPieces h, List.map_map, List.map_map]
    rfl
  rw [hchars]
  refine run_intersperse (fun piece hpiece => ?_) rfl
  -- each of them was found in the source, so it stands apart
  obtain ⟨found, hfound, rfl⟩ := List.mem_map.1 hpiece
  obtain ⟨hmem, hemits⟩ := List.mem_filter.1 hfound
  obtain ⟨before, rest, hfirst⟩ := h.exists_firstRule? found hmem
  exact ⟨Piece.emits_apart hemits, standsApart_apart hfirst hemits⟩

/-- The tokens of a source, printed with a space between any two, are read again without any
problem.  Their texts are the same, and so are their kinds, but for the identifiers that spell
a reserved word: these are reserved words now.  So printing again changes nothing. -/
theorem scan_reprint (text : String) :
    (scan (reprint text)).diagnostics = [] ∧
    (scan (reprint text)).tokens.map Token.value = (scan text).tokens.map Token.value ∧
    (scan (reprint text)).kinds = (scan text).tokens.map (fun token =>
      if token.kind = .identifier ∧ token.value ∈ keywords then .keyword else token.kind) ∧
    reprint (reprint text) = reprint text := by
  obtain ⟨pieces, hpieces⟩ := exists_run none text.toList
  have hrun := run_reprint hpieces
  -- kinds and texts are read off the run, in which the spaces add nothing
  have hcontent : (scan (reprint text)).tokens.map Token.content =
      (scan text).tokens.map fun token => contentApart token.content := by
    rw [scan_eq_ofPieces hrun, scan_eq_ofPieces hpieces, Scan.map_content_ofPieces,
      filterMap_intersperse_space rfl, filterMap_content?_printed,
      ← Scan.map_content_ofPieces 0, List.map_map]
    rfl
  have hvalues : (scan (reprint text)).tokens.map Token.value =
      (scan text).tokens.map Token.value := by
    have := congrArg (List.map Prod.snd) hcontent
    rwa [List.map_map, List.map_map] at this
  refine ⟨?_, hvalues, ?_, ?_⟩
  · -- no piece of the run is reported, as all of them are tokens or spaces
    have hnone : ∀ piece ∈ printed pieces, piece.problem? = none := by
      intro piece hpiece
      obtain ⟨found, hfound, rfl⟩ := List.mem_map.1 hpiece
      have hemits := Piece.emits_apart (List.mem_filter.1 hfound).2
      obtain ⟨kind, haction⟩ := Grammar.Action.eq_of_emits hemits
      rw [Piece.problem?, haction]
    have hproblems : (scan (reprint text)).diagnostics.map Diagnostic.problem = [] := by
      rw [scan_eq_ofPieces hrun, Scan.map_problem_ofPieces, filterMap_intersperse_space rfl,
        List.filterMap_eq_nil_iff]
      exact hnone
    exact List.map_eq_nil_iff.1 hproblems
  · -- the kinds are those of the contents
    have := congrArg (List.map Prod.fst) hcontent
    rwa [List.map_map, List.map_map] at this
  · -- the texts are the same, so the same is printed
    rw [reprint, hvalues, ← reprint]

example : (scan "1if").kinds = [.constant, .identifier] := by decide +kernel

example : (scan (reprint "1if")).kinds = [.constant, .keyword] := by decide +kernel

end TokenCensus

import TokenCensus.Proofs.TokenText
import TokenCensus.Report

/-!
# The list of tokens loses nothing

The list of tokens prints texts as they are, and a literal may hold newlines and whole lines that
look like those of other tokens.  It can be read back all the same, since nothing in it is found by
looking for the end of a line.  A token starts with the name of its kind; the kind tells where the
text ends; and the two numbers of the place are closed by a point and by the newline.

The list tells more than the report of counts: sources with the same list have the same counts.

## Key results

- `selfDelimiting_label`, `selfDelimiting_span`: the name of a kind and a place can be read back
- `selfDelimiting_display`: the line of a token can be read back
- `tokens_eq_of_tokenLines`: the same list comes from the same tokens only
-/

namespace TokenCensus

open Report (tokenLines countLines)

/-! ## One token -/

theorem Kind.space_not_mem_label (kind : Kind) : ' ' ∉ kind.label.toList := by
  cases kind <;> decide

theorem Kind.eq_of_label {kind kind' : Kind} (h : kind.label = kind'.label) : kind = kind' := by
  cases kind <;> cases kind' <;> first | rfl | exact absurd h (by decide)

/-- The name of a kind is closed by a space. -/
theorem selfDelimiting_label :
    SelfDelimiting (fun _ : Kind => True) fun kind => kind.label.toList ++ [' '] := by
  apply selfDelimiting_of_mark
  · exact fun kind _ => kind.space_not_mem_label
  · exact fun kind kind' _ _ h => Kind.eq_of_label (String.toList_inj.1 h)

/-- A place is closed by a newline. -/
theorem selfDelimiting_span :
    SelfDelimiting (fun _ : Span => True) fun span => span.display.toList ++ ['\n'] := by
  -- each number ends at the first character that is no digit
  have hstart := selfDelimiting_repr (show '.'.isDigit = false by decide)
  have hstop := selfDelimiting_repr (show '\n'.isDigit = false by decide)
  -- a place is its two numbers
  have hpair := (hstart.append (hstop.const_append ['.'])).comap
    (f := fun span : Span => (span.start, span.stop)) fun x y h => by
      cases x
      cases y
      rw [Span.mk.injEq]
      exact Prod.mk.inj h
  intro x y rest rest' hx hy heq
  apply hpair x y rest rest' ⟨hx, hx⟩ ⟨hy, hy⟩
  simpa [Span.display] using heq

/-- The line of a token can be read back: the name of its kind tells where its text ends. -/
theorem selfDelimiting_display :
    SelfDelimiting (fun token : Token => token.kind.Spells token.value.toList)
      fun token => (token.display ++ "\n").toList := by
  -- the kind is read first, since where the text ends depends on it
  have hspace : ' ' ∈ textMarks := by decide
  have htext := fun kind : Kind =>
    (kind.selfDelimiting_spells hspace).append (selfDelimiting_span.const_append ['@', ' '])
  -- a token is its kind, its text and its place
  have htoken := (selfDelimiting_label.append_dependent htext).comap
    (f := fun token : Token => (token.kind, token.value.toList, token.span)) fun x y h => by
      obtain ⟨hkind, hrest⟩ := Prod.mk.inj h
      obtain ⟨hvalue, hspan⟩ := Prod.mk.inj hrest
      cases x
      cases y
      rw [Token.mk.injEq]
      exact ⟨hkind, String.toList_inj.1 hvalue, hspan⟩
  intro x y rest rest' hx hy heq
  apply htoken x y rest rest' ⟨trivial, hx, trivial⟩ ⟨trivial, hy, trivial⟩
  simpa [Token.display] using heq

/-! ## All tokens -/

theorem toList_tokenLines (scan : Scan) :
    (tokenLines scan).toList = scan.tokens.flatMap fun token => (token.display ++ "\n").toList := by
  simp [tokenLines, String.toList_join, List.flatMap_map]

/-- The counts are counts of the tokens, whatever else a scan has found. -/
theorem countLines_ofScan_congr {a b : Scan} (h : a.tokens = b.tokens) :
    countLines (TokenTable.ofScan a) = countLines (TokenTable.ofScan b) := by
  have hslots : (TokenTable.ofScan a).slots = (TokenTable.ofScan b).slots := by
    rw [TokenTable.ofScan, TokenTable.ofScan, h]
    rfl
  rw [countLines, countLines, TokenTable.total, TokenTable.total, hslots]

/-- Two sources have the same list only if they have the same tokens, at the same places, and so
the same report of counts. -/
theorem tokens_eq_of_tokenLines {a b : String}
    (h : tokenLines (scan a) = tokenLines (scan b)) :
    (scan a).tokens = (scan b).tokens ∧
      countLines (tokenTable a) = countLines (tokenTable b) := by
  have hne : ∀ token : Token, (token.display ++ "\n").toList ≠ [] := by simp
  have htokens : (scan a).tokens = (scan b).tokens := by
    -- every text of a scan is one of its kind, so that the lines can be read back
    apply selfDelimiting_display.eq_of_flatMap hne spells_of_mem_tokens spells_of_mem_tokens
    rw [← toList_tokenLines, ← toList_tokenLines, h]
  exact ⟨htokens, countLines_ofScan_congr htokens⟩

/-- A literal that holds what looks like a line of the list, and the same with a comment after it. -/
theorem tokenLines_literal_forging_line :
    tokenLines (scan "\"a @ 0..2\nKEYWORD if @ 2..4\n\"") =
        tokenLines (scan "\"a @ 0..2\nKEYWORD if @ 2..4\n\" // if") ∧
      (scan "\"a @ 0..2\nKEYWORD if @ 2..4\n\"").tokens =
        (scan "\"a @ 0..2\nKEYWORD if @ 2..4\n\" // if").tokens := by
  -- the literal starts at the first byte, so the comment behind it moves nothing
  have h : tokenLines (scan "\"a @ 0..2\nKEYWORD if @ 2..4\n\"") =
      tokenLines (scan "\"a @ 0..2\nKEYWORD if @ 2..4\n\" // if") := by
    decide +kernel
  exact ⟨h, (tokens_eq_of_tokenLines h).1⟩

-- tokens that no source has can have the list of others
example :
    tokenLines ⟨[⟨.identifier, "a @ 0..1\nIDENTIFIER b", ⟨2, 3⟩⟩], []⟩ =
      tokenLines ⟨[⟨.identifier, "a", ⟨0, 1⟩⟩, ⟨.identifier, "b", ⟨2, 3⟩⟩], []⟩ := by
  decide +kernel

end TokenCensus

import TokenCensus.Proofs.CountReport
import TokenCensus.Proofs.Line
import TokenCensus.Proofs.LineEnding
import TokenCensus.Proofs.Tiling
import TokenCensus.Proofs.TokenReport

/-!
# Lines of reports

Reports are written line by line, for those who read them line by line: a line for each token, or a
line for each kind and two more for the total.  But texts are printed as they are, so a text with a
newline in it breaks its line in two.  Of all tokens only literals can hold one, and so both reports
have the lines that they are meant to have exactly if no literal goes on beyond the end of a line.

## Key results

- `Kind.Spells.newline_not_mem`: only literals can hold a newline
- `mem_entries_ofScan_iff`: a table counts the texts of the tokens, and all of them
- `lines_tokenLines_iff`, `lines_countLines_iff`: when each line of a report is one
- `lines_reports_iff`: both reports of a source
- `lines_reports_literal_newline`: a literal that breaks the lines of both
-/

namespace TokenCensus

open Report (tokenLines kindLine countLines)

/-! ## What cannot hold a newline -/

theorem Kind.newline_not_mem_label (kind : Kind) : '\n' ∉ kind.label.toList := by
  cases kind <;> decide

/-- Only literals can hold a newline. -/
theorem Kind.Spells.newline_not_mem {kind : Kind} {cs : List Char} (h : kind.Spells cs)
    (hliteral : kind ≠ .literal) : '\n' ∉ cs := by
  by_cases hpunctuator : kind = .punctuator
  · subst hpunctuator
    obtain ⟨c, hc, rfl⟩ := h.isPunctuator
    -- the newline is no punctuator
    intro hmem
    rw [← List.mem_singleton.1 hmem] at hc
    exact absurd hc (by decide)
  · -- the other kinds are those of rules that a newline ends
    obtain ⟨rule, hword, before, rest, hfits⟩ := h.exists_wordlike hliteral hpunctuator
    exact hfits.newline_not_mem hword

/-- No literal goes on beyond the end of a line. -/
def Scan.LiteralsOnOneLine (scan : Scan) : Prop :=
  ∀ token ∈ scan.tokens, token.kind = .literal → '\n' ∉ token.value.toList

/-- If no literal of a source holds a newline then no token does. -/
theorem literalsOnOneLine_iff (text : String) :
    (scan text).LiteralsOnOneLine ↔ ∀ token ∈ (scan text).tokens, '\n' ∉ token.value.toList := by
  constructor
  · intro h token htoken
    by_cases hliteral : token.kind = .literal
    · exact h token htoken hliteral
    · exact (spells_of_mem_tokens token htoken).newline_not_mem hliteral
  · exact fun h token htoken _ => h token htoken

/-! ## The list of tokens -/

theorem newline_mem_display_iff {token : Token} :
    '\n' ∈ token.display.toList ↔ '\n' ∈ token.value.toList := by
  simp [Token.display, Span.display, Kind.newline_not_mem_label, Text.newline_not_mem_toDigits]

/-- Each token has a line of its own exactly if no text holds a newline. -/
theorem lines_tokenLines_iff (scan : Scan) :
    Text.lines (tokenLines scan).toList =
        scan.tokens.map (fun token => token.display.toList ++ ['\n']) ↔
      ∀ token ∈ scan.tokens, '\n' ∉ token.value.toList := by
  have htext : (tokenLines scan).toList =
      (scan.tokens.map fun token => token.display.toList).flatMap (· ++ ['\n']) := by
    simp [toList_tokenLines, List.flatMap_map]
  have hlines := Text.lines_flatMap_iff (scan.tokens.map fun token => token.display.toList)
  -- a line of its own for each display, and the newline in it can only be that of the text
  rw [← htext, List.map_map, List.forall_mem_map] at hlines
  simp only [newline_mem_display_iff] at hlines
  exact hlines

/-! ## The report of counts -/

theorem Counts.mem_of_count_pos {counts : Counts} {text : String} (h : 0 < counts.count text) :
    text ∈ counts.entries.map Prod.fst := by
  -- a text without an entry has the count zero
  cases hlookup : counts.entries.lookup text with
  | none => simp [count, lookup?, hlookup] at h
  | some n =>
    obtain ⟨front, back, hentries, -⟩ := List.lookup_eq_some_iff.1 hlookup
    rw [hentries]
    simp

/-- An emitted kind has its slot. -/
theorem TokenTable.exists_mem_slots (table : TokenTable) {kind : Kind} (h : kind ∈ Kind.emitted) :
    ∃ counts, (kind, counts) ∈ table.slots := by
  rw [← table.slots_map_fst] at h
  obtain ⟨⟨_, counts⟩, hslot, rfl⟩ := List.mem_map.1 h
  exact ⟨counts, hslot⟩

/-- A table counts the texts of the tokens, and all of them. -/
theorem mem_entries_ofScan_iff {scan : Scan} {slot : Kind × Counts} {text : String}
    (hslot : slot ∈ (TokenTable.ofScan scan).slots) :
    text ∈ slot.2.entries.map Prod.fst ↔
      ∃ token ∈ scan.tokens, token.kind = slot.1 ∧ token.value = text := by
  have hget := TokenTable.get?_of_mem_slots hslot
  have htrivia : slot.1.isTrivia = false := by
    -- trivia have no slot
    refine Bool.eq_false_iff.2 fun htrivia => ?_
    rw [TokenTable.get?_eq_none_iff.2 htrivia] at hget
    exact nomatch hget
  constructor
  · -- a text is counted only when a token brings it
    have hholds : (TokenTable.ofScan scan).Holds fun kind text =>
        ∃ token ∈ scan.tokens, token.kind = kind ∧ token.value = text :=
      TokenTable.holds_ofScan fun token htoken => ⟨token, htoken, rfl, rfl⟩
    exact hholds slot.1 slot.2 hget text
  · -- the count of a text is the number of its tokens, so it is not zero
    intro h
    obtain ⟨token, htoken, hkind, hvalue⟩ := h
    apply Counts.mem_of_count_pos
    have hcount := TokenTable.count_ofScan scan slot.1 text
    rw [TokenTable.count, hget, Option.map_some, Option.getD_some] at hcount
    rw [hcount, List.countP_pos_iff]
    exact ⟨token, htoken, by simp [htrivia, hkind, hvalue]⟩

theorem not_mem_intercalate_iff {c : Char} {sep : List Char} (hsep : c ∉ sep)
    (xss : List (List Char)) : c ∉ sep.intercalate xss ↔ ∀ xs ∈ xss, c ∉ xs := by
  cases xss with
  | nil => simp
  | cons xs xss => simp [SelfDelimiting.intercalate_cons, hsep]

/-- The line of a kind without the newline that ends it. -/
def kindLineBody (kind : Kind) (counts : Counts) : List Char :=
  (kind.label ++ ": ").toList ++
    [',', ' '].intercalate (counts.entries.map fun entry => (Report.entry entry.1 entry.2).toList)

theorem toList_kindLine (kind : Kind) (counts : Counts) :
    (kindLine kind counts).toList = kindLineBody kind counts ++ ['\n'] := by
  simp [kindLine, kindLineBody, String.toList_intercalate, Function.comp_def]

theorem newline_not_mem_kindLineBody_iff {kind : Kind} {counts : Counts} :
    '\n' ∉ kindLineBody kind counts ↔
      ∀ text ∈ counts.entries.map Prod.fst, '\n' ∉ text.toList := by
  -- neither the label nor the number has a newline, so an entry has one if its text has
  have hlabel : '\n' ∉ (kind.label ++ ": ").toList := by simp [kind.newline_not_mem_label]
  have hentry : ∀ entry : String × Nat,
      '\n' ∉ (Report.entry entry.1 entry.2).toList ↔ '\n' ∉ entry.1.toList := by
    simp [Report.entry, Text.newline_not_mem_toDigits]
  rw [kindLineBody, List.mem_append, not_or, not_mem_intercalate_iff (by decide),
    List.forall_mem_map, List.forall_mem_map]
  simp only [hlabel, hentry, not_false_eq_true, true_and]

/-- The kinds that have tokens, with their counts. -/
def TokenTable.filled (table : TokenTable) : List (Kind × Counts) :=
  table.slots.filter fun slot => !slot.2.isEmpty

/-- The last line of a report. -/
def totalLine (table : TokenTable) : List Char :=
  ("Total tokens found: " ++ table.total.repr).toList

theorem newline_not_mem_totalLine (table : TokenTable) : '\n' ∉ totalLine table := by
  simp [totalLine, Text.newline_not_mem_toDigits]

/-- A report is made of lines if what it says of the kinds is. -/
theorem toList_countLines_eq_flatMap (table : TokenTable) :
    (countLines table).toList =
      (table.filled.map (fun slot => kindLineBody slot.1 slot.2) ++
        [[], totalLine table]).flatMap (· ++ ['\n']) := by
  rw [toList_countLines, slotLines, ← TokenTable.filled]
  simp [totalLine, toList_kindLine, List.flatMap_map]

/-- Each kind with tokens has a line of its own, before the empty line and the total, exactly if no
text that is counted holds a newline. -/
theorem lines_countLines_iff (table : TokenTable) :
    Text.lines (countLines table).toList =
        table.filled.map (fun slot => kindLineBody slot.1 slot.2 ++ ['\n']) ++
          [['\n'], totalLine table ++ ['\n']] ↔
      ∀ slot ∈ table.filled, ∀ text ∈ slot.2.entries.map Prod.fst, '\n' ∉ text.toList := by
  have hlines := Text.lines_flatMap_iff
    (table.filled.map (fun slot => kindLineBody slot.1 slot.2) ++ [[], totalLine table])
  rw [← toList_countLines_eq_flatMap, List.map_append, List.map_map, List.forall_mem_append,
    List.forall_mem_map] at hlines
  -- the empty line and the total are no question
  have hrest : ∀ line ∈ [[], totalLine table], '\n' ∉ line := by
    simp [newline_not_mem_totalLine]
  simp only [newline_not_mem_kindLineBody_iff] at hlines
  exact hlines.trans (and_iff_left hrest)

/-- The texts that a table counts are those of the tokens of emitted kinds. -/
theorem forall_filled_ofScan_iff {scan : Scan} {P : String → Prop}
    (hkinds : ∀ token ∈ scan.tokens, token.kind ∈ Kind.emitted) :
    (∀ slot ∈ (TokenTable.ofScan scan).filled, ∀ text ∈ slot.2.entries.map Prod.fst, P text) ↔
      ∀ token ∈ scan.tokens, P token.value := by
  constructor
  · intro h token htoken
    obtain ⟨counts, hslot⟩ := TokenTable.exists_mem_slots (TokenTable.ofScan scan)
      (hkinds token htoken)
    have htext : token.value ∈ counts.entries.map Prod.fst :=
      (mem_entries_ofScan_iff hslot).2 ⟨token, htoken, rfl, rfl⟩
    -- a kind that has a text is not left out
    have hfilled : (token.kind, counts) ∈ (TokenTable.ofScan scan).filled := by
      refine List.mem_filter.2 ⟨hslot, ?_⟩
      cases hentries : counts.entries with
      | nil => simp [hentries] at htext
      | cons entry entries => simp [Counts.isEmpty, hentries]
    exact h _ hfilled _ htext
  · intro h slot hslot text htext
    obtain ⟨token, htoken, -, rfl⟩ :=
      (mem_entries_ofScan_iff (List.mem_filter.1 hslot).1).1 htext
    exact h token htoken

/-! ## The reports of a source -/

/-- The kind of a token is one that is emitted. -/
theorem kind_mem_emitted_of_mem_tokens {text : String} :
    ∀ token ∈ (scan text).tokens, token.kind ∈ Kind.emitted := by
  intro token htoken
  obtain ⟨rule, before, rest, haction, hfits⟩ := spells_of_mem_tokens token htoken
  exact Kind.mem_emitted.2 (Grammar.Rule.isTrivia_eq_false_of_emit haction)

/-- The list of tokens has a line for each token, and the report of counts a line for each kind with
tokens, an empty line and the total, exactly if no literal goes on beyond the end of a line. -/
theorem lines_reports_iff (text : String) :
    (Text.lines (tokenLines (scan text)).toList =
        (scan text).tokens.map (fun token => token.display.toList ++ ['\n']) ↔
      (scan text).LiteralsOnOneLine) ∧
    (Text.lines (countLines (tokenTable text)).toList =
        (tokenTable text).filled.map (fun slot => kindLineBody slot.1 slot.2 ++ ['\n']) ++
          [['\n'], totalLine (tokenTable text) ++ ['\n']] ↔
      (scan text).LiteralsOnOneLine) := by
  rw [literalsOnOneLine_iff]
  constructor
  · exact lines_tokenLines_iff (scan text)
  · rw [lines_countLines_iff, tokenTable]
    exact forall_filled_ofScan_iff (P := fun text => '\n' ∉ text.toList)
      kind_mem_emitted_of_mem_tokens

/-- One literal that goes over the end of a line: its token takes two lines of the list, and its kind
two lines of the report. -/
theorem lines_reports_literal_newline :
    (scan "\"a\nb\"").tokens.length = 1 ∧
    (Text.lines (tokenLines (scan "\"a\nb\"")).toList).length = 2 ∧
    (tokenTable "\"a\nb\"").filled.length = 1 ∧
    (Text.lines (countLines (tokenTable "\"a\nb\"")).toList).length = 4 := by
  decide +kernel

end TokenCensus

import Mathlib.Data.List.Nodup
import TokenCensus.Proofs.ReportLines

/-!
# Texts in the order of their first occurrence

A table is filled token by token, with tokens of all kinds in whatever order.  Each of its counts
sees only the tokens of its own kind, and what it knows of them in the end is exact: which texts
there were, in the order in which they first came, and how often each of them came.

The invariant is `Counts.Tallies`.  Recording one more text keeps it (`Counts.Tallies.record`), and
so does recording a token in a table, for the texts of the token's kind.

## Key results

- `Counts.map_fst_recordEntry`: a new text comes behind the others, a known one stays in its place
- `Counts.Tallies.record`: what one record does to an exact count
- `TokenTable.tallies_foldl_record`: what a run of records does to an exact table
- `TokenTable.tallies_of_records`: tables are exact
-/

namespace TokenCensus

/-! ## One kind -/

namespace Counts

/-- The texts that are counted, in the order of the entries. -/
def texts (counts : Counts) : List String := counts.entries.map Prod.fst

/-- A new text comes behind the others, and a known one stays in its place. -/
theorem map_fst_recordEntry (text : String) (entries : List (String × Nat)) :
    (recordEntry text entries).map Prod.fst =
      if text ∈ entries.map Prod.fst then entries.map Prod.fst
      else entries.map Prod.fst ++ [text] := by
  induction entries with
  | nil => rfl
  | cons entry rest ih =>
    obtain ⟨known, n⟩ := entry
    unfold recordEntry
    by_cases hknown : known = text
    · simp [hknown]
    · -- the text is not the first one, so the rest decides
      rw [if_neg hknown, List.map_cons, ih]
      by_cases hmem : text ∈ rest.map Prod.fst
      · have hin : text ∈ ((known, n) :: rest).map Prod.fst := List.mem_cons_of_mem _ hmem
        rw [if_pos hmem, if_pos hin]
        rfl
      · have hnot : text ∉ ((known, n) :: rest).map Prod.fst := by
          rw [List.map_cons, List.mem_cons, not_or]
          exact ⟨Ne.symm hknown, hmem⟩
        rw [if_neg hmem, if_neg hnot]
        rfl

theorem texts_record (counts : Counts) (text : String) :
    (counts.record text).texts =
      if text ∈ counts.texts then counts.texts else counts.texts ++ [text] :=
  map_fst_recordEntry text counts.entries

/-- Where each text has one entry, that entry is found. -/
theorem lookup?_of_mem {counts : Counts} (hnodup : counts.texts.Nodup) {entry : String × Nat}
    (h : entry ∈ counts.entries) : counts.lookup? entry.1 = some entry.2 := by
  -- the entries before it have other texts
  obtain ⟨front, back, hentries⟩ := List.append_of_mem h
  refine List.lookup_eq_some_iff.2 ⟨front, back, hentries, fun other hother => ?_⟩
  rw [texts, hentries, List.map_append, List.map_cons, List.nodup_append] at hnodup
  have hne := hnodup.2.2 other.1 (List.mem_map_of_mem hother) entry.1 List.mem_cons_self
  simpa using Ne.symm hne

/-- `counts` knows all about the texts that have occurred: which there are, in the order in which
they first occurred, and how often each of them has. -/
structure Tallies (counts : Counts) (occurred : List String) : Prop where
  nodup : counts.texts.Nodup
  order : counts.texts.Pairwise fun text later => occurred.idxOf text < occurred.idxOf later
  mem_iff : ∀ text, text ∈ counts.texts ↔ text ∈ occurred
  entry_eq : ∀ entry ∈ counts.entries, entry.2 = occurred.count entry.1
  count_eq : ∀ text, counts.count text = occurred.count text

theorem tallies_empty : empty.Tallies [] where
  nodup := List.nodup_nil
  order := .nil
  mem_iff _ := Iff.rfl
  entry_eq := nofun
  count_eq _ := rfl

/-- Another occurrence, recorded. -/
theorem Tallies.record {counts : Counts} {occurred : List String} (h : counts.Tallies occurred)
    (text : String) : (counts.record text).Tallies (occurred ++ [text]) := by
  -- the text is new, or its entry stays where it is
  have hnodup : (counts.record text).texts.Nodup := by
    rw [texts_record]
    split
    · exact h.nodup
    · rename_i hnew
      rw [← List.concat_eq_append]
      exact h.nodup.concat hnew
  -- one more of the text that is recorded, and no more of any other
  have hcount (other : String) :
      (counts.record text).count other = (occurred ++ [text]).count other := by
    rw [count_record, h.count_eq, List.count_append]
    by_cases htext : other = text
    · simp [htext]
    · simp [htext, Ne.symm htext]
  -- whatever has occurred before keeps its place
  have hplace {known : String} (hknown : known ∈ counts.texts) :
      (occurred ++ [text]).idxOf known = occurred.idxOf known :=
    List.idxOf_append_of_mem ((h.mem_iff known).1 hknown)
  -- so the order of the texts that are known is the same
  have hkept : counts.texts.Pairwise fun known later =>
      (occurred ++ [text]).idxOf known < (occurred ++ [text]).idxOf later := by
    refine h.order.imp_of_mem fun hknown hlater hlt => ?_
    rwa [hplace hknown, hplace hlater]
  have horder : (counts.record text).texts.Pairwise fun known later =>
      (occurred ++ [text]).idxOf known < (occurred ++ [text]).idxOf later := by
    rw [texts_record]
    split
    · exact hkept
    · -- a new text first occurs behind all that have occurred
      rename_i hnew
      have hnot : text ∉ occurred := fun hmem => hnew ((h.mem_iff text).2 hmem)
      refine List.pairwise_append.2 ⟨hkept, List.pairwise_singleton _ _, ?_⟩
      intro known hknown later hlater
      obtain rfl := List.mem_singleton.1 hlater
      rw [hplace hknown, List.idxOf_append_of_notMem hnot]
      have := List.idxOf_lt_length_iff.2 ((h.mem_iff known).1 hknown)
      omega
  have hmem (other : String) : other ∈ (counts.record text).texts ↔ other ∈ occurred ++ [text] := by
    rw [texts, Counts.record, mem_map_fst_recordEntry, ← texts, h.mem_iff, List.mem_append,
      List.mem_singleton, or_comm]
  have hentry : ∀ entry ∈ (counts.record text).entries,
      entry.2 = (occurred ++ [text]).count entry.1 := by
    -- what is found for a text is its entry
    intro entry hentry
    rw [← hcount, count, lookup?_of_mem hnodup hentry, Option.getD_some]
  exact ⟨hnodup, horder, hmem, hentry, hcount⟩

end Counts

/-! ## All kinds -/

/-- The texts of the tokens of a kind, in the order of the tokens. -/
def textsOf (kind : Kind) (tokens : List Token) : List String :=
  (tokens.filter (·.kind = kind)).map Token.value

theorem textsOf_cons (kind : Kind) (token : Token) (tokens : List Token) :
    textsOf kind (token :: tokens) =
      (if token.kind = kind then [token.value] else []) ++ textsOf kind tokens := by
  unfold textsOf
  rw [List.filter_cons]
  by_cases h : token.kind = kind <;> simp [h]

namespace TokenTable

/-- The counts of a table, kind by kind, are exact. -/
def Tallies (table : TokenTable) (occurred : Kind → List String) : Prop :=
  ∀ kind counts, table.get? kind = some counts → counts.Tallies (occurred kind)

/-- A token adds its text to those of its kind, and to no others. -/
theorem Tallies.record {table : TokenTable} {occurred : Kind → List String}
    (h : table.Tallies occurred) (token : Token) :
    (table.record token).Tallies fun kind =>
      occurred kind ++ if token.kind = kind then [token.value] else [] := by
  intro kind counts hcounts
  rw [get?_record, Option.map_eq_some_iff] at hcounts
  obtain ⟨old, hold, rfl⟩ := hcounts
  by_cases hkind : token.kind = kind
  · simp only [if_pos hkind]
    exact (h kind old hold).record token.value
  · simp only [if_neg hkind, List.append_nil]
    exact h kind old hold

/-- What a run of records does to an exact table. -/
theorem tallies_foldl_record {table : TokenTable} {occurred : Kind → List String}
    (h : table.Tallies occurred) (tokens : List Token) :
    (tokens.foldl TokenTable.record table).Tallies fun kind =>
      occurred kind ++ textsOf kind tokens := by
  induction tokens generalizing table occurred with
  | nil => simpa [textsOf] using h
  | cons token tokens ih =>
    -- the token takes its place between what has occurred and what follows
    have := ih (h.record token)
    simpa [textsOf_cons] using this

theorem tallies_empty : empty.Tallies fun _ => [] := by
  intro kind counts hcounts
  -- each kind starts without entries
  have : counts = .empty := by cases kind <;> cases hcounts <;> rfl
  rw [this]
  exact Counts.tallies_empty

theorem tallies_records (tokens : List Token) :
    (tokens.foldl TokenTable.record empty).Tallies fun kind => textsOf kind tokens :=
  tallies_foldl_record tallies_empty tokens

theorem tallies_ofScan (scan : Scan) :
    (ofScan scan).Tallies fun kind => textsOf kind scan.tokens := by
  intro kind counts hcounts
  rw [ofScan, get?_with_diagnostics] at hcounts
  exact tallies_records scan.tokens kind counts hcounts

theorem exists_get? (table : TokenTable) {kind : Kind} (h : kind ∈ Kind.emitted) :
    ∃ counts, table.get? kind = some counts := by
  obtain ⟨counts, hslot⟩ := table.exists_mem_slots h
  exact ⟨counts, get?_of_mem_slots hslot⟩

/-- A token leaves the counts of other kinds as they are. -/
theorem get?_record_of_ne (table : TokenTable) {token : Token} {kind : Kind}
    (h : kind ≠ token.kind) : (table.record token).get? kind = table.get? kind := by
  rw [get?_record]
  simp [Ne.symm h]

theorem record_of_isTrivia (table : TokenTable) {token : Token}
    (h : token.kind.isTrivia = true) : table.record token = table := by
  unfold record
  cases hkind : token.kind with
  | whitespace | comment => rfl
  | keyword | identifier | operator | constant | literal | punctuator =>
    rw [hkind] at h
    exact nomatch h

theorem diagnostics_record (table : TokenTable) (token : Token) :
    (table.record token).diagnostics = table.diagnostics := by
  unfold record
  cases token.kind <;> rfl

theorem diagnostics_foldl_record (table : TokenTable) (tokens : List Token) :
    (tokens.foldl TokenTable.record table).diagnostics = table.diagnostics := by
  induction tokens generalizing table with
  | nil => rfl
  | cons token tokens ih => rw [List.foldl_cons, ih, diagnostics_record]

/-- All tokens of a source are counted. -/
theorem total_tokenTable (text : String) :
    (tokenTable text).total = (scan text).tokens.length := by
  rw [tokenTable, total_ofScan, List.countP_eq_length]
  intro token htoken
  -- every kind of a token is one that is counted
  simpa using Kind.mem_emitted.1 (kind_mem_emitted_of_mem_tokens token htoken)

/-- Tables are exact.  Whatever tokens have been recorded, each emitted kind has the texts of its
tokens, distinct, in the order of their first records and with the numbers of their records; each
record has changed the counts of its own kind only, and trivia nothing at all; and the total is the
number of tokens that are not trivia.  So the table of a scan counts what the scan holds. -/
theorem tallies_of_records (tokens : List Token) (scanned : Scan) (text : String) :
    (∀ kind ∈ Kind.emitted, ∃ counts,
      (tokens.foldl TokenTable.record empty).get? kind = some counts ∧
      counts.Tallies (textsOf kind tokens)) ∧
    (∀ (table : TokenTable) (token : Token),
      (∀ kind ≠ token.kind, (table.record token).get? kind = table.get? kind) ∧
      (table.record token).diagnostics = table.diagnostics ∧
      (token.kind.isTrivia = true → table.record token = table)) ∧
    (tokens.foldl TokenTable.record empty).total =
      tokens.countP (fun token => token.kind.isTrivia = false) ∧
    (∀ kind, (ofScan scanned).get? kind =
      (scanned.tokens.foldl TokenTable.record empty).get? kind) ∧
    (ofScan scanned).total = scanned.tokens.countP (fun token => token.kind.isTrivia = false) ∧
    (ofScan scanned).diagnostics = scanned.diagnostics ∧
    (tokenTable text).total = (scan text).tokens.length ∧
    (tokenTable text).diagnostics = (scan text).diagnostics := by
  refine ⟨fun kind hkind => ?_, fun table token => ?_, ?_, fun kind => ?_, total_ofScan scanned,
    rfl, total_tokenTable text, rfl⟩
  · obtain ⟨counts, hcounts⟩ := exists_get? (tokens.foldl TokenTable.record empty) hkind
    exact ⟨counts, hcounts, tallies_records tokens kind counts hcounts⟩
  · exact ⟨fun kind => get?_record_of_ne table, diagnostics_record table token,
      record_of_isTrivia table⟩
  · rw [total_foldl_record]
    exact Nat.zero_add _
  · rw [ofScan, get?_with_diagnostics]

end TokenTable

end TokenCensus

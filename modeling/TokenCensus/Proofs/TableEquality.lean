import Mathlib.Data.List.Forall2
import Mathlib.Data.List.Perm.Subperm
import TokenCensus.Proofs.Occurrence

/-!
# Tables that are the same

Two tables are compared kind by kind without regard to the order of the texts.  So what a table
keeps of a scan is a multiset of texts for each kind, and the diagnostics as they are: tokens may
come in any order.  Reports are not that patient.  They print the texts in the order in which they
first occurred, so the same table can be reported in several ways; but each line has the same
entries, and all else is the same.

## Key results

- `Counts.Tallies.same_iff`: exact counts are the same exactly for permutations of the texts
- `TokenTable.same_iff_of_tallies`: the same for tables
- `TokenTable.alike_of_same`: what tables that are the same have in common in their reports
- `TokenTable.same_ofScan_iff`: what it means that the tables of two scans are the same
-/

namespace TokenCensus

open Report (kindLine countLines)

/-! ## One kind -/

namespace Counts

section

variable {counts counts' : Counts} {occurred occurred' : List String}

/-- The entries of an exact count, told from the texts. -/
theorem Tallies.entries_eq (h : counts.Tallies occurred) :
    counts.entries = counts.texts.map fun text => (text, occurred.count text) := by
  rw [texts, List.map_map]
  conv_lhs => rw [← List.map_id counts.entries]
  refine List.map_congr_left fun entry hentry => ?_
  exact Prod.ext rfl (h.entry_eq entry hentry)

theorem mem_texts_of_lookup? {text : String} {n : Nat} (h : counts.lookup? text = some n) :
    text ∈ counts.texts := by
  obtain ⟨front, back, hentries, -⟩ := List.lookup_eq_some_iff.1 h
  simp [texts, hentries]

/-- The same texts, in another order, have the same counts in another order. -/
theorem Tallies.entries_perm (h : counts.Tallies occurred) (h' : counts'.Tallies occurred')
    (hperm : occurred.Perm occurred') : counts.entries.Perm counts'.entries := by
  -- the same texts have occurred on both sides
  have htexts : counts.texts.Perm counts'.texts := by
    refine (List.perm_ext_iff_of_nodup h.nodup h'.nodup).2 fun text => ?_
    rw [h.mem_iff, h'.mem_iff, hperm.mem_iff]
  rw [h.entries_eq, h'.entries_eq]
  -- and each of them as often
  simp only [List.perm_iff_count.1 hperm]
  exact htexts.map _

/-- Exact counts are the same exactly if they count permutations of the same texts. -/
theorem Tallies.same_iff (h : counts.Tallies occurred) (h' : counts'.Tallies occurred') :
    counts.Same counts' ↔ occurred.Perm occurred' := by
  constructor
  · rintro ⟨hsize, hlookup⟩
    -- there are as many texts on both sides, so none is left over
    have hsubset : counts.texts ⊆ counts'.texts := by
      intro text htext
      obtain ⟨entry, hentry, rfl⟩ := List.mem_map.1 htext
      exact mem_texts_of_lookup? (hlookup entry hentry)
    have hlength : counts'.texts.length ≤ counts.texts.length := by
      simpa [texts, size] using hsize.ge
    have htexts := (List.subperm_of_subset h.nodup hsubset).perm_of_length_le hlength
    refine List.perm_iff_count.2 fun text => ?_
    rw [← h'.count_eq]
    by_cases htext : text ∈ counts.texts
    · obtain ⟨entry, hentry, rfl⟩ := List.mem_map.1 htext
      rw [← h.entry_eq entry hentry, count, hlookup entry hentry, Option.getD_some]
    · -- a text that is not there has not occurred on either side
      have hnot : text ∉ occurred' := by rwa [← h'.mem_iff, ← htexts.mem_iff]
      rw [h'.count_eq, List.count_eq_zero_of_not_mem hnot, List.count_eq_zero,
        ← h.mem_iff]
      exact htext
  · intro hperm
    have hentries := h.entries_perm h' hperm
    refine ⟨hentries.length_eq, fun entry hentry => ?_⟩
    exact lookup?_of_mem h'.nodup (hentries.mem_iff.1 hentry)

end

theorem total_eq_of_perm {counts counts' : Counts} (h : counts.entries.Perm counts'.entries) :
    counts.total = counts'.total := by
  rw [total, total]
  exact h.foldr_eq' (fun _ _ _ _ _ => by omega) 0

end Counts

/-! ## All kinds -/

theorem perm_textsOf {tokens tokens' : List Token} (h : tokens.Perm tokens') (kind : Kind) :
    (textsOf kind tokens).Perm (textsOf kind tokens') :=
  (h.filter _).map _

namespace TokenTable

/-- Tables are the same if each kind has the same counts on both sides. -/
theorem same_iff_get? {a b : TokenTable} :
    a.Same b ↔ a.diagnostics = b.diagnostics ∧ ∀ kind counts counts',
      a.get? kind = some counts → b.get? kind = some counts' → counts.Same counts' := by
  constructor
  · rintro ⟨hkeyword, hidentifier, hoperator, hconstant, hliteral, hpunctuator, hdiagnostics⟩
    -- kind by kind, the two slots are the counts that are compared
    refine ⟨hdiagnostics, fun kind counts counts' hcounts hcounts' => ?_⟩
    cases kind <;> cases hcounts <;> cases hcounts' <;> assumption
  · rintro ⟨hdiagnostics, h⟩
    exact ⟨h .keyword _ _ rfl rfl, h .identifier _ _ rfl rfl, h .operator _ _ rfl rfl,
      h .constant _ _ rfl rfl, h .literal _ _ rfl rfl, h .punctuator _ _ rfl rfl, hdiagnostics⟩

section

variable {a b : TokenTable} {occurred occurred' : Kind → List String}

/-- Exact tables are the same exactly if the texts of each kind are permutations of each other and
the diagnostics are the same. -/
theorem same_iff_of_tallies (ha : a.Tallies occurred) (hb : b.Tallies occurred') :
    a.Same b ↔ a.diagnostics = b.diagnostics ∧
      ∀ kind ∈ Kind.emitted, (occurred kind).Perm (occurred' kind) := by
  rw [same_iff_get?]
  refine and_congr_right fun _ => ⟨fun h kind hkind => ?_, ?_⟩
  · obtain ⟨counts, hcounts⟩ := a.exists_get? hkind
    obtain ⟨counts', hcounts'⟩ := b.exists_get? hkind
    exact ((ha kind counts hcounts).same_iff (hb kind counts' hcounts')).1
      (h kind counts counts' hcounts hcounts')
  · intro h kind counts counts' hcounts hcounts'
    -- a kind that has a slot is one that is emitted
    have hkind : kind ∈ Kind.emitted := by
      rw [Kind.mem_emitted, ← Bool.not_eq_true, ← a.get?_eq_none_iff, hcounts]
      exact nofun
    exact ((ha kind counts hcounts).same_iff (hb kind counts' hcounts')).2 (h kind hkind)

end

end TokenTable

/-! ## The lines of reports -/

namespace Report

/-- A line of a report, and a line for the same kind that has the same entries in another order. -/
def Rearranged (line line' : Kind × Counts) : Prop :=
  line.1 = line'.1 ∧ line.2.entries.Perm line'.2.entries

/-- The report that has these lines and this total. -/
def ofLines (lines : List (Kind × Counts)) (total : Nat) : String :=
  String.join (lines.map fun (kind, counts) => kindLine kind counts) ++
    "\nTotal tokens found: " ++ total.repr ++ "\n"

/-- Tables whose reports differ in the order of entries inside of lines, and in nothing else: line
by line they are for the same kind with the same entries, and the totals are equal. -/
structure Alike (a b : TokenTable) : Prop where
  left_eq : countLines a = ofLines a.filled a.total
  right_eq : countLines b = ofLines b.filled b.total
  rearranged : List.Forall₂ Rearranged a.filled b.filled
  total_eq : a.total = b.total

end Report

namespace TokenTable

open Report (Rearranged)

section

variable {a b : TokenTable} {occurred occurred' : Kind → List String}

/-- Tables that are the same have the same texts in the lines of their reports. -/
theorem rearranged_slots (ha : a.Tallies occurred) (hb : b.Tallies occurred') (h : a.Same b) :
    List.Forall₂ Rearranged a.slots b.slots := by
  have hperm := ((same_iff_of_tallies ha hb).1 h).2
  -- the kinds are the same on both sides, so only what stands in the slots is compared
  refine List.rel_filterMap (R := fun kind kind' => kind = kind' ∧ kind ∈ Kind.emitted) ?_
    (List.forall₂_same.2 fun kind hkind => ⟨rfl, hkind⟩)
  rintro kind _ ⟨rfl, hkind⟩
  obtain ⟨counts, hcounts⟩ := a.exists_get? hkind
  obtain ⟨counts', hcounts'⟩ := b.exists_get? hkind
  simp only [hcounts, hcounts', Option.map_some]
  exact .some ⟨rfl, (ha kind counts hcounts).entries_perm (hb kind counts' hcounts')
    (hperm kind hkind)⟩

/-- Lines are left out on both sides or on neither. -/
theorem rearranged_filled (h : List.Forall₂ Rearranged a.slots b.slots) :
    List.Forall₂ Rearranged a.filled b.filled := by
  refine List.rel_filter ?_ h
  rintro line line' ⟨-, hentries⟩
  show (!line.2.entries.isEmpty) = true ↔ (!line'.2.entries.isEmpty) = true
  -- a line without entries stays one when its entries are rearranged
  rw [hentries.isEmpty_eq]

theorem total_eq_of_rearranged (h : List.Forall₂ Rearranged a.slots b.slots) :
    a.total = b.total := by
  unfold total
  refine List.rel_foldr (P := Eq) ?_ rfl h
  rintro line line' ⟨-, hentries⟩ n _ rfl
  show line.2.total + n = line'.2.total + n
  rw [Counts.total_eq_of_perm hentries]

/-- Tables that are the same have reports that differ in the order of entries only. -/
theorem alike_of_same (ha : a.Tallies occurred) (hb : b.Tallies occurred') (h : a.Same b) :
    Report.Alike a b := by
  have hslots := rearranged_slots ha hb h
  exact ⟨rfl, rfl, rearranged_filled hslots, total_eq_of_rearranged hslots⟩

end

/-- What it means that the tables of two scans are the same: the diagnostics are the same, and each
kind has the same texts on both sides, in whatever order.  So the order in which tokens are recorded
does not matter, and all that it changes in a report is the order of entries inside of lines. -/
theorem same_ofScan_iff (a b : Scan) :
    ((ofScan a).Same (ofScan b) ↔ a.diagnostics = b.diagnostics ∧
      ∀ kind ∈ Kind.emitted, (textsOf kind a.tokens).Perm (textsOf kind b.tokens)) ∧
    (a.tokens.Perm b.tokens → a.diagnostics = b.diagnostics → (ofScan a).Same (ofScan b)) ∧
    (a.tokens.Perm b.tokens →
      (a.tokens.foldl record empty).Same (b.tokens.foldl record empty)) ∧
    ((ofScan a).Same (ofScan b) → Report.Alike (ofScan a) (ofScan b)) := by
  have hiff := same_iff_of_tallies (tallies_ofScan a) (tallies_ofScan b)
  refine ⟨hiff, fun htokens hdiagnostics => ?_, fun htokens => ?_, ?_⟩
  · exact hiff.2 ⟨hdiagnostics, fun kind _ => perm_textsOf htokens kind⟩
  · rw [same_iff_of_tallies (tallies_records a.tokens) (tallies_records b.tokens)]
    refine ⟨?_, fun kind _ => perm_textsOf htokens kind⟩
    -- recording leaves the diagnostics alone
    rw [diagnostics_foldl_record, diagnostics_foldl_record]
  · exact alike_of_same (tallies_ofScan a) (tallies_ofScan b)

/-- Two names in two orders, in two sources and in one list of tokens: the tables are the same, and
the reports are not. -/
theorem same_ofScan_names :
    (ofScan (scan "a b")).Same (ofScan (scan "b a")) ∧
    countLines (ofScan (scan "a b")) ≠ countLines (ofScan (scan "b a")) ∧
    Report.Alike (ofScan (scan "a b")) (ofScan (scan "b a")) ∧
    (ofScan (scan "a b")).Same (ofScan ⟨(scan "a b").tokens.reverse, []⟩) ∧
    ((scan "a b").tokens.foldl record empty).Same
      ((scan "a b").tokens.reverse.foldl record empty) := by
  have hsame : (ofScan (scan "a b")).Same (ofScan (scan "b a")) := by decide +kernel
  have halike := (same_ofScan_iff (scan "a b") (scan "b a")).2.2.2 hsame
  have hclean : (scan "a b").diagnostics = [] := by decide +kernel
  have hperm : (scan "a b").tokens.Perm (scan "a b").tokens.reverse :=
    (List.reverse_perm _).symm
  obtain ⟨-, htables, hrecords, -⟩ :=
    same_ofScan_iff (scan "a b") ⟨(scan "a b").tokens.reverse, []⟩
  exact ⟨hsame, by decide +kernel, halike, htables hperm hclean, hrecords hperm⟩

end TokenTable

end TokenCensus

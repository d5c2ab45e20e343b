import TokenCensus.Proofs.Content
import TokenCensus.Table.Basic

/-!
# What a table counts

A table is filled token by token.  Seen from outside, each of its counts is a number of tokens of
the scan, and so is its total: the order of the tokens and their places in the source are gone.

## Key results

- `count_ofScan`, `total_ofScan`: the counts and the total of a table, told from the tokens
- `count_append_shift`, `total_append_shift`: tables of two stretches of a source add up
- `holds_ofScan`: the texts that are counted are texts of tokens of that kind
-/

namespace TokenCensus.TokenTable

/-- How often `text` is counted as a token of `kind`.  Trivia is not counted. -/
def count (table : TokenTable) (kind : Kind) (text : String) : Nat :=
  ((table.get? kind).map (·.count text)).getD 0

/-- A token changes the counts of its own kind only. -/
theorem get?_record (table : TokenTable) (token : Token) (kind : Kind) :
    (table.record token).get? kind =
      (table.get? kind).map fun counts =>
        if token.kind = kind then counts.record token.value else counts := by
  -- kind by kind, the slot that changes is the one that is looked at or another
  cases hkind : token.kind <;> cases kind <;> simp [record, hkind, get?]

/-- A token counts for its own kind and text, unless it is trivia. -/
theorem count_record (table : TokenTable) (token : Token) (kind : Kind) (text : String) :
    (table.record token).count kind text = table.count kind text +
      if kind.isTrivia = false ∧ token.kind = kind ∧ token.value = text then 1 else 0 := by
  -- trivia has no slot, so that it counts on neither side
  cases hkind : token.kind <;> cases kind <;>
    simp [count, record, hkind, get?, Kind.isTrivia, Counts.count_record, eq_comm]

theorem count_foldl_record (tokens : List Token) (table : TokenTable) (kind : Kind)
    (text : String) :
    (tokens.foldl record table).count kind text = table.count kind text +
      tokens.countP fun token =>
        kind.isTrivia = false ∧ token.kind = kind ∧ token.value = text := by
  -- the counts may have any values at the start
  induction tokens generalizing table with
  | nil => rfl
  -- the first token counts once or not at all, and the others on top
  | cons token tokens ih =>
    simp only [List.foldl_cons, ih, count_record, List.countP_cons, decide_eq_true_eq]
    omega

theorem total_foldl_record (tokens : List Token) (table : TokenTable) :
    (tokens.foldl record table).total =
      table.total + tokens.countP fun token => token.kind.isTrivia = false := by
  induction tokens generalizing table with
  | nil => rfl
  | cons token tokens ih =>
    rw [List.foldl_cons, ih, total_record, List.countP_cons]
    cases token.kind.isTrivia with
    | true => rfl
    | false => exact (Nat.add_assoc ..).trans (congrArg _ (Nat.add_comm ..))

/-- The diagnostics stand beside the counts. -/
theorem get?_with_diagnostics (table : TokenTable) (diagnostics : List Diagnostic) (kind : Kind) :
    { table with diagnostics }.get? kind = table.get? kind := by
  cases kind <;> rfl

/-- A count is the number of tokens with that kind and that text. -/
theorem count_ofScan (scan : Scan) (kind : Kind) (text : String) :
    (ofScan scan).count kind text = scan.tokens.countP fun token =>
      kind.isTrivia = false ∧ token.kind = kind ∧ token.value = text := by
  -- nothing is counted in an empty table
  have hempty : empty.count kind text = 0 := by cases kind <;> rfl
  rw [ofScan, count, get?_with_diagnostics]
  show (scan.tokens.foldl record empty).count kind text = _
  rw [count_foldl_record, hempty, Nat.zero_add]

/-- The total is the number of tokens. -/
theorem total_ofScan (scan : Scan) :
    (ofScan scan).total = scan.tokens.countP fun token => token.kind.isTrivia = false := by
  have := total_foldl_record scan.tokens empty
  rwa [show empty.total = 0 from rfl, Nat.zero_add] at this

/-! ## Two stretches of a source -/

theorem count_append_shift (front back : Scan) (n : Nat) (kind : Kind) (text : String) :
    (ofScan (front ++ back.shift n)).count kind text =
      (ofScan front).count kind text + (ofScan back).count kind text := by
  rw [count_ofScan, count_ofScan, count_ofScan, Scan.tokens_append, List.countP_append,
    Scan.shift, List.countP_map]
  rfl

theorem total_append_shift (front back : Scan) (n : Nat) :
    (ofScan (front ++ back.shift n)).total = (ofScan front).total + (ofScan back).total := by
  rw [total_ofScan, total_ofScan, total_ofScan, Scan.tokens_append, List.countP_append,
    Scan.shift, List.countP_map]
  rfl

/-! ## The texts that are counted -/

/-- Each text that is counted for a kind satisfies `P`. -/
def Holds (P : Kind → String → Prop) (table : TokenTable) : Prop :=
  ∀ kind counts, table.get? kind = some counts →
    ∀ text ∈ counts.entries.map Prod.fst, P kind text

theorem holds_record {P : Kind → String → Prop} {table : TokenTable} (h : table.Holds P)
    {token : Token} (htoken : P token.kind token.value) : (table.record token).Holds P := by
  intro kind counts hcounts text htext
  rw [get?_record, Option.map_eq_some_iff] at hcounts
  obtain ⟨old, hold, rfl⟩ := hcounts
  split at htext
  · -- the text has just been recorded, or it was known before
    rename_i hkind
    rcases Counts.mem_map_fst_recordEntry.1 htext with rfl | hknown
    · exact hkind ▸ htoken
    · exact h kind old hold text hknown
  · exact h kind old hold text htext

theorem holds_foldl_record {P : Kind → String → Prop} {tokens : List Token} {table : TokenTable}
    (h : table.Holds P) (htokens : ∀ token ∈ tokens, P token.kind token.value) :
    (tokens.foldl record table).Holds P := by
  induction tokens generalizing table with
  | nil => exact h
  | cons token tokens ih =>
    obtain ⟨htoken, htokens⟩ := List.forall_mem_cons.1 htokens
    exact ih (holds_record h htoken) htokens

theorem holds_empty (P : Kind → String → Prop) : empty.Holds P := by
  intro kind counts hcounts
  cases kind <;> cases hcounts <;> exact nofun

/-- A table counts the texts of tokens only. -/
theorem holds_ofScan {P : Kind → String → Prop} {scan : Scan}
    (h : ∀ token ∈ scan.tokens, P token.kind token.value) : (ofScan scan).Holds P := by
  intro kind counts hcounts
  rw [ofScan, get?_with_diagnostics] at hcounts
  exact holds_foldl_record (holds_empty P) h kind counts hcounts

/-- The slots of a table are what it has for their kinds. -/
theorem get?_of_mem_slots {table : TokenTable} {slot : Kind × Counts} (h : slot ∈ table.slots) :
    table.get? slot.1 = some slot.2 := by
  obtain ⟨kind, -, hkind⟩ := List.mem_filterMap.1 h
  obtain ⟨counts, hcounts, rfl⟩ := Option.map_eq_some_iff.1 hkind
  exact hcounts

theorem lookup_slots (table : TokenTable) (kind : Kind) :
    table.slots.lookup kind = table.get? kind := by
  cases kind <;> rfl

end TokenCensus.TokenTable

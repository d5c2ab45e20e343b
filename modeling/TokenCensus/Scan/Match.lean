import TokenCensus.Grammar.Rule
import TokenCensus.Scan.Cursor

/-!
# Matches

A match is a lexeme at its place, with the rule that it was found by.  The matches of a text follow
each other without a gap, each starting where the one before it ends.

## Key results

- `next?_eq_none_iff`: there is a match wherever there is a character
- `length_rest_lt_of_next?`: every match leaves less text behind it, so the search ends
- `found_eq`: the matches from a cursor are the next one and those after it
-/

namespace TokenCensus

/-- A lexeme that starts at the byte `start`, and its rule. -/
structure Match where
  rule : Grammar.Rule
  start : Nat
  lexeme : List Char
deriving DecidableEq, Repr

/-- The byte at which the match ends. -/
def Match.stop (m : Match) : Nat := m.start + Text.byteLength m.lexeme

namespace Cursor

/-- The match at the cursor, and the cursor behind it. -/
def next? (cursor : Cursor) : Option (Match × Cursor) :=
  (Grammar.firstRule? cursor.before cursor.rest).map fun (rule, n) =>
    (⟨rule, cursor.offset, cursor.rest.take n⟩, cursor.advance n)

/-- There is no match exactly at the end of the text. -/
theorem next?_eq_none_iff {cursor : Cursor} : cursor.next? = none ↔ cursor.rest = [] := by
  rw [next?, Option.map_eq_none_iff, Grammar.firstRule?_eq_none_iff]

/-- A match takes characters off the text. -/
theorem length_rest_lt_of_next? {cursor after : Cursor} {m : Match}
    (h : cursor.next? = some (m, after)) :
    after.rest.length < cursor.rest.length := by
  have hne : cursor.rest ≠ [] := fun hnil => by simp [next?_eq_none_iff.2 hnil] at h
  obtain ⟨⟨rule, n⟩, hrule, heq⟩ := Option.map_eq_some_iff.1 h
  have hpos := Grammar.firstRule?_pos hrule
  have hlen := List.length_pos_iff.2 hne
  cases heq
  simp only [advance, List.length_drop]
  omega

/-- Adds the matches from the cursor on to those already found. -/
def collect (found : Array Match) (cursor : Cursor) : Array Match :=
  match _h : cursor.next? with
  | none => found
  | some (m, after) => collect (found.push m) after
termination_by cursor.rest.length
decreasing_by exact length_rest_lt_of_next? _h

/-- The matches from the cursor to the end of the text. -/
def found (cursor : Cursor) : List Match := (cursor.collect #[]).toList

/-- What was found before stays in front, whatever it is. -/
private theorem collect_toList (acc : Array Match) (cursor : Cursor) :
    (cursor.collect acc).toList = acc.toList ++ cursor.found := by
  -- induction on the length of the text that is left
  suffices ∀ n (acc : Array Match) (cursor : Cursor), cursor.rest.length = n →
      (cursor.collect acc).toList = acc.toList ++ (cursor.collect #[]).toList from
    this _ acc cursor rfl
  intro n
  induction n using Nat.strongRecOn with
  | ind n ih =>
    intro acc cursor hn
    rw [collect, collect.eq_def #[]]
    split
    · simp
    · rename_i m after hnext
      have hlt := length_rest_lt_of_next? hnext
      -- both sides go on from `after`, with more found on the one and only `m` on the other
      rw [ih _ (hn ▸ hlt) (acc.push m) after rfl, ih _ (hn ▸ hlt) (#[].push m) after rfl]
      simp

/-- The matches from a cursor, one step unfolded. -/
theorem found_eq (cursor : Cursor) :
    cursor.found =
      match cursor.next? with
      | none => []
      | some (m, after) => m :: after.found := by
  rw [found, collect]
  split <;> rename_i hnext <;> rw [hnext]
  simp [collect_toList]

end Cursor

/-- The matches of a text, from its start to its end. -/
def allMatches (text : String) : List Match :=
  (Cursor.start text.toList).found

end TokenCensus

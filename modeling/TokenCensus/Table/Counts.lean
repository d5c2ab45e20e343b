/-!
# Counts

How often each text has occurred.  The texts stand in the order in which they first occurred, and
each stands once.

## Key results

- `total_record`: recording a text adds one to the sum of the counts
- `count_record`: it adds one to the count of that text, and to no other
- `mem_map_fst_recordEntry`: the text is counted from then on, and no other text comes in
-/

namespace TokenCensus

/-- Distinct texts with their numbers of occurrences, in the order of the first occurrences. -/
structure Counts where
  entries : List (String × Nat)
deriving DecidableEq, Repr

namespace Counts

/-- No occurrence of any text. -/
def empty : Counts := ⟨[]⟩

/-- Adds one occurrence of `text` to the entries: to its own, or to a new one at the end. -/
def recordEntry (text : String) : List (String × Nat) → List (String × Nat)
  | [] => [(text, 1)]
  | (known, n) :: rest =>
    if known = text then (known, n + 1) :: rest else (known, n) :: recordEntry text rest

/-- Adds one occurrence of `text`. -/
def record (counts : Counts) (text : String) : Counts :=
  ⟨recordEntry text counts.entries⟩

/-- The entries as a look-up table. -/
def lookup? (counts : Counts) (text : String) : Option Nat :=
  counts.entries.lookup text

/-- The number of occurrences of `text`. -/
def count (counts : Counts) (text : String) : Nat :=
  (counts.lookup? text).getD 0

/-- The number of distinct texts. -/
def size (counts : Counts) : Nat := counts.entries.length

/-- Whether nothing has been recorded. -/
def isEmpty (counts : Counts) : Bool := counts.entries.isEmpty

/-- The number of all occurrences. -/
def total (counts : Counts) : Nat := counts.entries.foldr (fun entry n => entry.2 + n) 0

/-- Two counts are the same when they have the same texts with the same numbers, in whatever
order. -/
def Same (a b : Counts) : Prop :=
  a.size = b.size ∧ ∀ entry ∈ a.entries, b.lookup? entry.1 = some entry.2

instance (a b : Counts) : Decidable (Same a b) :=
  inferInstanceAs (Decidable (_ ∧ _))

/-! ## What recording changes -/

theorem foldr_recordEntry (text : String) (entries : List (String × Nat)) :
    (recordEntry text entries).foldr (fun entry n => entry.2 + n) 0 =
      entries.foldr (fun entry n => entry.2 + n) 0 + 1 := by
  induction entries with
  | nil => rfl
  | cons entry rest ih =>
    obtain ⟨known, n⟩ := entry
    unfold recordEntry
    split <;> simp_all <;> omega

/-- Recording a text adds one to the total. -/
@[simp] theorem total_record (counts : Counts) (text : String) :
    (counts.record text).total = counts.total + 1 :=
  foldr_recordEntry text counts.entries

private theorem lookup_cons (text known : String) (n : Nat) (rest : List (String × Nat)) :
    ((known, n) :: rest).lookup text = if text = known then some n else rest.lookup text := by
  by_cases h : text = known
  · simp [h]
  · rw [List.lookup_cons, beq_false_of_ne h, if_neg h]

theorem lookup_recordEntry (text other : String) (entries : List (String × Nat)) :
    ((recordEntry text entries).lookup other).getD 0 =
      (entries.lookup other).getD 0 + if other = text then 1 else 0 := by
  induction entries with
  | nil =>
    rw [recordEntry, lookup_cons]
    split <;> rfl
  | cons entry rest ih =>
    obtain ⟨known, n⟩ := entry
    unfold recordEntry
    split
    -- the text is counted by this entry
    · subst known
      rw [lookup_cons, lookup_cons]
      split <;> simp
    -- the text is counted further on
    · rw [lookup_cons, lookup_cons, apply_ite (Option.getD · 0), ih]
      split <;> simp_all

/-- Recording a text adds one to its own count only. -/
theorem count_record (counts : Counts) (text other : String) :
    (counts.record text).count other = counts.count other + if other = text then 1 else 0 :=
  lookup_recordEntry text other counts.entries

/-- A text that is recorded is counted from then on, and no other text comes in. -/
theorem mem_map_fst_recordEntry {text other : String} {entries : List (String × Nat)} :
    other ∈ (recordEntry text entries).map Prod.fst ↔
      other = text ∨ other ∈ entries.map Prod.fst := by
  induction entries with
  | nil => simp [recordEntry]
  | cons entry rest ih =>
    obtain ⟨known, n⟩ := entry
    unfold recordEntry
    split
    · subst known
      simp
    · simp only [List.map_cons, List.mem_cons, ih]
      exact or_left_comm

end Counts

end TokenCensus

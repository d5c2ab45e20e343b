import TokenCensus.Scan.Basic
import TokenCensus.Table.Counts

/-!
# Tables of tokens

A table counts the tokens of a source, text by text, for each of the kinds that are emitted, and
keeps the diagnostics of the source beside the counts.

## Key results

- `slots_map_fst`: a table has counts for the emitted kinds and no others, in the order of reports
- `get?_eq_none_iff`: the kinds without counts are those that are trivia
- `total_record`: a token adds one to the total, unless it is trivia
-/

namespace TokenCensus

/-- The counts of each emitted kind, and the diagnostics.  A kind without tokens has counts all
the same, which are empty. -/
structure TokenTable where
  keyword : Counts
  identifier : Counts
  operator : Counts
  constant : Counts
  literal : Counts
  punctuator : Counts
  diagnostics : List Diagnostic
deriving DecidableEq, Repr

namespace TokenTable

/-- The table of no token. -/
def empty : TokenTable := ⟨.empty, .empty, .empty, .empty, .empty, .empty, []⟩

/-- The counts of a kind; trivia has none. -/
def get? (table : TokenTable) : Kind → Option Counts
  | .keyword => some table.keyword
  | .identifier => some table.identifier
  | .operator => some table.operator
  | .constant => some table.constant
  | .literal => some table.literal
  | .punctuator => some table.punctuator
  | .whitespace | .comment => none

theorem get?_eq_none_iff {table : TokenTable} {kind : Kind} :
    table.get? kind = none ↔ kind.isTrivia := by
  cases kind <;> simp [get?, Kind.isTrivia]

/-- The emitted kinds with their counts, in the order of reports. -/
def slots (table : TokenTable) : List (Kind × Counts) :=
  Kind.emitted.filterMap fun kind => (table.get? kind).map (kind, ·)

theorem slots_map_fst (table : TokenTable) : table.slots.map Prod.fst = Kind.emitted := rfl

/-- Counts a token.  Trivia is not counted. -/
def record (table : TokenTable) (token : Token) : TokenTable :=
  match token.kind with
  | .keyword => { table with keyword := table.keyword.record token.value }
  | .identifier => { table with identifier := table.identifier.record token.value }
  | .operator => { table with operator := table.operator.record token.value }
  | .constant => { table with constant := table.constant.record token.value }
  | .literal => { table with literal := table.literal.record token.value }
  | .punctuator => { table with punctuator := table.punctuator.record token.value }
  | .whitespace | .comment => table

/-- The number of tokens counted. -/
def total (table : TokenTable) : Nat :=
  table.slots.foldr (fun slot n => slot.2.total + n) 0

theorem total_eq (table : TokenTable) :
    table.total = table.keyword.total + table.identifier.total + table.operator.total +
      table.constant.total + table.literal.total + table.punctuator.total := by
  simp only [total, slots, Kind.emitted, Kind.all, Kind.isTrivia, List.filter, get?,
    List.filterMap, Option.map, List.foldr, Bool.not_false,
    Bool.not_true]
  omega

/-- A token adds one to the total, unless it is trivia. -/
theorem total_record (table : TokenTable) (token : Token) :
    (table.record token).total = table.total + if token.kind.isTrivia then 0 else 1 := by
  -- one of the six terms grows, or none
  rw [total_eq, total_eq, record]
  cases token.kind <;> simp [Kind.isTrivia] <;> omega

/-- The table of a scan. -/
def ofScan (scan : Scan) : TokenTable :=
  { scan.tokens.foldl record empty with diagnostics := scan.diagnostics }

/-- Two tables are the same when each kind has the same counts, in whatever order, and the
diagnostics are the same in the same order. -/
def Same (a b : TokenTable) : Prop :=
  a.keyword.Same b.keyword ∧ a.identifier.Same b.identifier ∧ a.operator.Same b.operator ∧
    a.constant.Same b.constant ∧ a.literal.Same b.literal ∧ a.punctuator.Same b.punctuator ∧
    a.diagnostics = b.diagnostics

instance (a b : TokenTable) : Decidable (Same a b) :=
  inferInstanceAs (Decidable (_ ∧ _))

end TokenTable

/-- Scans a source and counts its tokens. -/
def tokenTable (text : String) : TokenTable := TokenTable.ofScan (scan text)

end TokenCensus

import TokenCensus.Table.Basic

/-!
# Reports

What is printed for a source: a line for each token, or a line for each kind with the counts of
its texts.  Texts are printed as they are.
-/

namespace TokenCensus.Report

/-- A line for each token of a scan. -/
def tokenLines (scan : Scan) : String :=
  String.join (scan.tokens.map fun token => token.display ++ "\n")

/-- A text with its number of occurrences. -/
def entry (text : String) (n : Nat) : String :=
  text ++ "[" ++ n.repr ++ "]"

/-- The line of a kind, with the texts in the order in which they first occurred. -/
def kindLine (kind : Kind) (counts : Counts) : String :=
  kind.label ++ ": " ++
    ", ".intercalate (counts.entries.map fun (text, n) => entry text n) ++ "\n"

/-- A line for each kind that has tokens, an empty line, and the number of all tokens. -/
def countLines (table : TokenTable) : String :=
  String.join ((table.slots.filter fun (_, counts) => !counts.isEmpty).map
    fun (kind, counts) => kindLine kind counts) ++
  "\nTotal tokens found: " ++ table.total.repr ++ "\n"

end TokenCensus.Report

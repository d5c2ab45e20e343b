import TokenCensus.Scan.Match
import TokenCensus.Token.Basic

/-!
# Scanning a source

A scan sorts the matches of a source: tokens from the rules that emit, diagnostics from the rules
that report, and nothing from those that skip.  Both come in the order of the source.

## Key results

- `Match.token?_eq_some_iff`, `Match.diagnostic?_eq_some_iff`: what a match becomes
-/

namespace TokenCensus

namespace Match

/-- The token of a match whose rule emits one. -/
def token? (m : Match) : Option Token :=
  match m.rule.action with
  | .emit kind => some ⟨kind, String.ofList m.lexeme, ⟨m.start, m.stop⟩⟩
  | .skip _ | .diagnose _ => none

/-- The diagnostic of a match whose rule reports one. -/
def diagnostic? (m : Match) : Option Diagnostic :=
  match m.rule.action with
  | .diagnose fault => some ⟨fault.problem (String.ofList m.lexeme), m.start⟩
  | .emit _ | .skip _ => none

theorem token?_eq_some_iff {m : Match} {token : Token} :
    m.token? = some token ↔ ∃ kind, m.rule.action = .emit kind ∧
      token = ⟨kind, String.ofList m.lexeme, ⟨m.start, m.stop⟩⟩ := by
  unfold token?
  cases m.rule.action <;> simp [eq_comm]

theorem diagnostic?_eq_some_iff {m : Match} {diagnostic : Diagnostic} :
    m.diagnostic? = some diagnostic ↔ ∃ fault, m.rule.action = .diagnose fault ∧
      diagnostic = ⟨fault.problem (String.ofList m.lexeme), m.start⟩ := by
  unfold diagnostic?
  cases m.rule.action <;> simp [eq_comm]

end Match

/-- What a source holds: its tokens, and what is wrong with it. -/
structure Scan where
  tokens : List Token
  diagnostics : List Diagnostic
deriving DecidableEq, Repr

namespace Scan

/-- The tokens and the diagnostics among some matches. -/
def ofMatches (ms : List Match) : Scan :=
  ⟨ms.filterMap Match.token?, ms.filterMap Match.diagnostic?⟩

/-- Whether nothing is wrong. -/
def isClean (scan : Scan) : Bool := scan.diagnostics.isEmpty

/-- The kinds of the tokens. -/
def kinds (scan : Scan) : List Kind := scan.tokens.map Token.kind

end Scan

/-- Scans a source. -/
def scan (text : String) : Scan := Scan.ofMatches (allMatches text)

/-- A search was asked to start at `position`, more than one byte beyond a text of `length`
bytes. -/
structure OutOfText where
  position : Nat
  length : Nat
deriving DecidableEq, Repr

/-- The match that a search from the byte `position` of `text` finds.  Inside a character, the
search starts with the next one.  The byte beyond the last one is a place with nothing to find,
and so is the one after it; from there on there is no place. -/
def matchAt (text : String) (position : Nat) : Except OutOfText (Option Match) :=
  -- one byte beyond the end, a search still answers that there is nothing
  if text.utf8ByteSize + 1 < position then .error ⟨position, text.utf8ByteSize⟩
  else .ok ((Cursor.seek text.toList position).next?.map Prod.fst)

end TokenCensus

import TokenCensus.Proofs.Separation
import TokenCensus.Scan.Basic

/-!
# Runs of the scanner

The matches of a text stand at byte offsets, but no rule looks at an offset: what is found depends
on the text that is left and on the character before it.  A run is the same sequence of matches
without the offsets, as a relation that can be put together piece by piece.  The offsets come back
by placing the pieces one behind the other.

## Key results

- `Run.found_eq`: the matches from a cursor are the pieces of the run there, placed
- `exists_run`, `Run.unique`: every text has exactly one run
- `firstRule?_of_mem_allMatches`, `firstRule?_of_mem_tokens`, `firstRule?_of_mem_diagnostics`: what
  is found at a place is what the winner there takes
- `Run.eq_cons`, `Run.congr`: a run starts with the winner, and hardly depends on what is before it
-/

namespace TokenCensus

open Grammar (Rule firstRule?)

/-- A lexeme and its rule, wherever the lexeme stands. -/
structure Piece where
  rule : Rule
  lexeme : List Char
deriving DecidableEq, Repr

/-- The match without its place. -/
def Match.piece (m : Match) : Piece := ⟨m.rule, m.lexeme⟩

/-- The matches of pieces that follow each other, the first of them at `offset`. -/
def place (offset : Nat) : List Piece → List Match
  | [] => []
  | piece :: pieces =>
    ⟨piece.rule, offset, piece.lexeme⟩ ::
      place (offset + Text.byteLength piece.lexeme) pieces

/-- The text that pieces take up together. -/
def lexemes (pieces : List Piece) : List Char := pieces.flatMap Piece.lexeme

@[simp] theorem lexemes_nil : lexemes [] = [] := rfl

@[simp] theorem lexemes_cons (piece : Piece) (pieces : List Piece) :
    lexemes (piece :: pieces) = piece.lexeme ++ lexemes pieces := rfl

@[simp] theorem lexemes_append (front back : List Piece) :
    lexemes (front ++ back) = lexemes front ++ lexemes back :=
  List.flatMap_append

/-- Pieces behind others are placed from where those end. -/
theorem place_append (offset : Nat) (front back : List Piece) :
    place offset (front ++ back) =
      place offset front ++ place (offset + Text.byteLength (lexemes front)) back := by
  induction front generalizing offset with
  | nil => rfl
  | cons piece front ih =>
    rw [List.cons_append, place, place, ih, lexemes_cons, Text.byteLength_append, Nat.add_assoc,
      List.cons_append]

@[simp] theorem place_map_piece (offset : Nat) (pieces : List Piece) :
    (place offset pieces).map Match.piece = pieces := by
  induction pieces generalizing offset with
  | nil => rfl
  | cons piece pieces ih => rw [place, List.map_cons, ih]; rfl

/-- `Run before cs pieces`: behind `before`, the text `cs` falls into `pieces`. -/
inductive Run : Option Char → List Char → List Piece → Prop where
  | nil {before : Option Char} : Run before [] []
  | cons {before : Option Char} {rule : Rule} {lexeme rest : List Char} {pieces : List Piece}
    (hfirst : firstRule? before (lexeme ++ rest) = some (rule, lexeme.length))
    (hrest : Run lexeme.getLast? rest pieces) :
    Run before (lexeme ++ rest) (⟨rule, lexeme⟩ :: pieces)

/-- The step of the scanner over a lexeme. -/
theorem Cursor.next?_of_firstRule? {before : Option Char} {offset : Nat} {rule : Rule}
    {lexeme rest : List Char}
    (h : firstRule? before (lexeme ++ rest) = some (rule, lexeme.length)) :
    (⟨before, offset, lexeme ++ rest⟩ : Cursor).next? =
      some (⟨rule, offset, lexeme⟩,
        ⟨lexeme.getLast?, offset + Text.byteLength lexeme, rest⟩) := by
  -- the lexeme has a last character, which stands before the next one
  have hne : lexeme ≠ [] := List.length_pos_iff.1 (Grammar.firstRule?_pos h)
  simp [Cursor.next?, h, Cursor.advance, List.getLast?_eq_some_getLast hne]

namespace Run

variable {before : Option Char} {cs : List Char} {pieces : List Piece}

/-- What the scanner finds is the run, placed. -/
theorem found_eq (h : Run before cs pieces) (offset : Nat) :
    (⟨before, offset, cs⟩ : Cursor).found = place offset pieces := by
  induction h generalizing offset with
  | nil => rw [Cursor.found_eq, Cursor.next?_eq_none_iff.2 rfl]; rfl
  | cons hfirst _ ih => rw [Cursor.found_eq, Cursor.next?_of_firstRule? hfirst]; simp [place, ih]

/-- A text falls into pieces in one way only. -/
theorem unique {others : List Piece} (h : Run before cs pieces) (h' : Run before cs others) :
    pieces = others := by
  -- both are what the scanner finds
  have := (h.found_eq 0).symm.trans (h'.found_eq 0)
  simpa using congrArg (List.map Match.piece) this

/-- The pieces put together are the text. -/
theorem lexemes_eq (h : Run before cs pieces) : lexemes pieces = cs := by
  induction h with
  | nil => rfl
  | cons _ _ ih => rw [lexemes_cons, ih]

theorem lexeme_ne_nil (h : Run before cs pieces) : ∀ piece ∈ pieces, piece.lexeme ≠ [] := by
  induction h with
  | nil => exact nofun
  | cons hfirst _ ih =>
    intro piece hpiece
    rcases List.mem_cons.1 hpiece with rfl | hpiece
    · exact List.length_pos_iff.1 (Grammar.firstRule?_pos hfirst)
    · exact ih piece hpiece

/-- Each piece of a run has been found somewhere. -/
theorem exists_firstRule? (h : Run before cs pieces) : ∀ piece ∈ pieces, ∃ before rest,
    firstRule? before (piece.lexeme ++ rest) = some (piece.rule, piece.lexeme.length) := by
  induction h with
  | nil => exact nofun
  | cons hfirst _ ih =>
    intro piece hpiece
    rcases List.mem_cons.1 hpiece with rfl | hpiece
    · exact ⟨_, _, hfirst⟩
    · exact ih piece hpiece

end Run

/-- Every text falls into pieces. -/
theorem exists_run (before : Option Char) (cs : List Char) : ∃ pieces, Run before cs pieces := by
  -- induction on the length of the text that is left
  suffices ∀ n (before : Option Char) (cs : List Char), cs.length = n →
      ∃ pieces, Run before cs pieces from this _ before cs rfl
  intro n
  induction n using Nat.strongRecOn with
  | ind n ih =>
    intro before cs hn
    cases hfirst : firstRule? before cs with
    -- nothing fits at the end of the text only
    | none =>
      obtain rfl := Grammar.firstRule?_eq_none_iff.1 hfirst
      exact ⟨[], .nil⟩
    | some winner =>
      obtain ⟨rule, k⟩ := winner
      have hpos := Grammar.firstRule?_pos hfirst
      have hle := Grammar.firstRule?_le_length hfirst
      -- the winner takes a character at least, so what is left is shorter
      obtain ⟨pieces, hrest⟩ := ih (cs.length - k) (by omega) (cs.take k).getLast? (cs.drop k)
        (by simp)
      have hcons : Run before (cs.take k ++ cs.drop k) (⟨rule, cs.take k⟩ :: pieces) :=
        .cons (by rw [List.take_append_drop, List.length_take_of_le hle, hfirst]) hrest
      rw [List.take_append_drop] at hcons
      exact ⟨_, hcons⟩

namespace Run

variable {before : Option Char} {cs : List Char} {pieces : List Piece}

/-- A run starts with the winner at its place. -/
theorem eq_cons {rule : Rule} {lexeme rest : List Char}
    (h : Run before (lexeme ++ rest) pieces)
    (hfirst : firstRule? before (lexeme ++ rest) = some (rule, lexeme.length)) :
    ∃ others, pieces = ⟨rule, lexeme⟩ :: others ∧ Run lexeme.getLast? rest others := by
  -- behind the winner there is some run, and the whole text has only one
  obtain ⟨others, hothers⟩ := exists_run lexeme.getLast? rest
  exact ⟨others, h.unique (.cons hfirst hothers), hothers⟩

/-- A text that is a single lexeme. -/
theorem single {rule : Rule} {lexeme : List Char} (hfits : rule.Fits before lexeme [])
    (hfree : rule.Unclaimed before lexeme []) : Run before lexeme [⟨rule, lexeme⟩] := by
  have h := Run.cons (Grammar.firstRule?_append_iff.2 ⟨hfits, hfree⟩) .nil
  rwa [List.append_nil] at h

/-- Behind `front`, each match has been found at its place. -/
theorem firstRule?_of_mem_place {front : List Char} (h : Run before cs pieces)
    (hbefore : front.getLast? = before) :
    ∀ m ∈ place (Text.byteLength front) pieces, ∃ between back,
      cs = between ++ (m.lexeme ++ back) ∧ Text.byteLength (front ++ between) = m.start ∧
        firstRule? (front ++ between).getLast? (m.lexeme ++ back) =
          some (m.rule, m.lexeme.length) := by
  induction h generalizing front with
  | nil => exact nofun
  | @cons before rule lexeme rest pieces hfirst _ ih =>
    have hne : lexeme ≠ [] := List.length_pos_iff.1 (Grammar.firstRule?_pos hfirst)
    intro m hm
    rw [place, List.mem_cons, ← Text.byteLength_append] at hm
    rcases hm with rfl | hm
    · -- the first match, with nothing between
      exact ⟨[], rest, rfl, by simp, by simpa [hbefore] using hfirst⟩
    · -- the place of a later match is behind the first lexeme
      have hlast : (front ++ lexeme).getLast? = lexeme.getLast? := by
        simp [List.getLast?_append, List.getLast?_eq_some_getLast hne]
      obtain ⟨between, back, hrest, hstart, hfound⟩ := ih hlast m hm
      refine ⟨lexeme ++ between, back, by rw [hrest, List.append_assoc], ?_, ?_⟩
      · rw [← List.append_assoc, hstart]
      · rw [← List.append_assoc, hfound]

/-- Only the first piece can depend on the character before the text, and it does so only on
whether that character belongs to a word. -/
theorem congr {before' : Option Char} (h : Run before cs pieces)
    (hbefore : before'.any Grammar.isWord = before.any Grammar.isWord) :
    Run before' cs pieces := by
  cases h with
  -- `firstRule?` sees of the character before only whether it belongs to a word
  | nil => exact .nil
  | cons hfirst hrest => exact .cons ((Grammar.firstRule?_congr hbefore _).trans hfirst) hrest

end Run

/-- The matches of a text are its run from the start, placed from the start. -/
theorem exists_run_text (text : String) :
    ∃ pieces, Run none text.toList pieces ∧ allMatches text = place 0 pieces := by
  obtain ⟨pieces, hrun⟩ := exists_run none text.toList
  exact ⟨pieces, hrun, hrun.found_eq 0⟩

/-- Each match of a text has been found at its place. -/
theorem firstRule?_of_mem_allMatches {text : String} {m : Match} (hm : m ∈ allMatches text) :
    ∃ front back, text.toList = front ++ (m.lexeme ++ back) ∧ Text.byteLength front = m.start ∧
      firstRule? front.getLast? (m.lexeme ++ back) = some (m.rule, m.lexeme.length) := by
  obtain ⟨pieces, hrun, hall⟩ := exists_run_text text
  rw [hall] at hm
  have hnil : ([] : List Char).getLast? = none := rfl
  exact hrun.firstRule?_of_mem_place hnil m hm

/-- Each token has been found at its place, by a rule that emits its kind. -/
theorem firstRule?_of_mem_tokens {text : String} {token : Token}
    (h : token ∈ (scan text).tokens) :
    ∃ rule front back, rule.action = .emit token.kind ∧
      text.toList = front ++ (token.value.toList ++ back) ∧
      Text.byteLength front = token.span.start ∧
      firstRule? front.getLast? (token.value.toList ++ back) =
        some (rule, token.value.toList.length) := by
  obtain ⟨m, hm, hsome⟩ := List.mem_filterMap.1 h
  -- a token comes from a match whose rule emits its kind
  obtain ⟨kind, haction, rfl⟩ := Match.token?_eq_some_iff.1 hsome
  obtain ⟨front, back, htext, hstart, hfirst⟩ := firstRule?_of_mem_allMatches hm
  simp only [String.toList_ofList]
  exact ⟨m.rule, front, back, haction, htext, hstart, hfirst⟩

/-- Each diagnostic has been found at its place, by a rule that reports its fault. -/
theorem firstRule?_of_mem_diagnostics {text : String} {diagnostic : Diagnostic}
    (h : diagnostic ∈ (scan text).diagnostics) :
    ∃ rule fault front lexeme back, rule.action = .diagnose fault ∧
      diagnostic.problem = fault.problem (String.ofList lexeme) ∧
      text.toList = front ++ (lexeme ++ back) ∧
      Text.byteLength front = diagnostic.position ∧
      firstRule? front.getLast? (lexeme ++ back) = some (rule, lexeme.length) := by
  obtain ⟨m, hm, hsome⟩ := List.mem_filterMap.1 h
  obtain ⟨fault, haction, rfl⟩ := Match.diagnostic?_eq_some_iff.1 hsome
  obtain ⟨front, back, htext, hstart, hfirst⟩ := firstRule?_of_mem_allMatches hm
  exact ⟨m.rule, fault, front, m.lexeme, back, haction, rfl, htext, hstart, hfirst⟩

end TokenCensus

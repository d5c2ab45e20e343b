import TokenCensus.Proofs.Content
import Mathlib.Data.List.Chain
import Mathlib.Data.List.Forall2

/-!
# The matches tile the text

The scanner never stops early and never skips a byte: its matches lie side by side from the first
byte of a text to the last.  What no token and no diagnostic accounts for is therefore blanks and
comments.

The loop is described twice.  `Cursor.Steps` follows it from cursor to cursor, which tells where it
can stop; `Run` gives the pieces that it cuts, which tells how they lie.

## Key results

- `Cursor.Steps.exists_split`: wherever the loop arrives, it stands between two parts of the text
- `Run.steps`: the loop applies all matches and stops at the end
- `tiling_allMatches`: the matches lie side by side
- `scan_accounts_for_every_byte`: the loop, its matches, and what becomes of them
-/

namespace TokenCensus

open Grammar (Rule firstRule?)

/-! ## The loop -/

/-- `Steps c seen d`: the loop goes from the cursor `c` to `d` and applies the matches `seen`. -/
inductive Cursor.Steps : Cursor → List Match → Cursor → Prop where
  | refl {c : Cursor} : Steps c [] c
  | step {c d e : Cursor} {m : Match} {seen : List Match}
    (hnext : c.next? = some (m, d)) (hsteps : Steps d seen e) : Steps c (m :: seen) e

/-- One step moves the characters of the match from behind the cursor to before it. -/
theorem Cursor.next?_ofSplit {front rest : List Char} {m : Match} {after : Cursor}
    (h : (ofSplit front rest).next? = some (m, after)) :
    ∃ n, after = ofSplit (front ++ rest.take n) (rest.drop n) := by
  obtain ⟨⟨rule, n⟩, -, heq⟩ := Option.map_eq_some_iff.1 h
  cases heq
  exact ⟨n, advance_ofSplit front rest n⟩

namespace Cursor.Steps

variable {c d : Cursor} {seen : List Match}

/-- Wherever the loop arrives, it stands between two parts of the same text. -/
theorem exists_split {front rest : List Char} (h : (ofSplit front rest).Steps seen d) :
    ∃ front' rest', front' ++ rest' = front ++ rest ∧ d = ofSplit front' rest' := by
  -- the text on both sides of the cursor changes at every step
  generalize hc : ofSplit front rest = c at h
  induction h generalizing front rest with
  | refl => exact ⟨front, rest, rfl, hc.symm⟩
  | step hnext _ ih =>
    subst hc
    obtain ⟨n, rfl⟩ := next?_ofSplit hnext
    obtain ⟨front', rest', happ, hd⟩ := ih rfl
    -- the characters that the step takes move from behind the cursor to before it
    refine ⟨front', rest', ?_, hd⟩
    rw [happ, List.append_assoc, List.take_append_drop]

/-- Every match takes at least one character off the text. -/
theorem length_add_le (h : c.Steps seen d) : seen.length + d.rest.length ≤ c.rest.length := by
  induction h with
  | refl => simp
  | step hnext _ ih =>
    have := length_rest_lt_of_next? hnext
    rw [List.length_cons]
    omega

end Cursor.Steps

/-- At a place that the loop reaches there is no match exactly where no byte is left, and a search
of the whole text from there finds the same match. -/
theorem Cursor.Steps.next?_spec {text : String} {seen : List Match} {c : Cursor}
    (h : (Cursor.start text.toList).Steps seen c) :
    (c.next? = none ↔ text.utf8ByteSize ≤ c.offset) ∧
      matchAt text c.offset = .ok (c.next?.map Prod.fst) := by
  obtain ⟨front, rest, happ, rfl⟩ := exists_split h
  rw [List.nil_append] at happ
  -- the two sides of the cursor share the bytes of the text
  have hsize : Text.byteLength front + Text.byteLength rest = text.utf8ByteSize := by
    rw [← Text.byteLength_append, happ, Text.byteLength_toList]
  show ((ofSplit front rest).next? = none ↔ text.utf8ByteSize ≤ Text.byteLength front) ∧
    matchAt text (Text.byteLength front) = .ok ((ofSplit front rest).next?.map Prod.fst)
  refine ⟨next?_eq_none_iff.trans ⟨fun hnil => ?_, fun hoffset => ?_⟩, ?_⟩
  · -- without text behind it, the cursor is at the last byte
    have hrest : rest = [] := hnil
    rw [hrest, Text.byteLength_nil] at hsize
    omega
  · show rest = []
    by_cases hne : rest = []
    · exact hne
    · -- text behind it would have bytes beyond the last one
      have := Text.byteLength_pos hne
      omega
  · -- the search finds the cursor again, as its offset is between two characters
    rw [matchAt, if_neg (by omega), ← happ, seek_ofSplit]

/-- The loop applies the pieces of the run one after the other, and stops at the end. -/
theorem Run.steps {before : Option Char} {cs : List Char} {pieces : List Piece}
    (h : Run before cs pieces) (offset : Nat) :
    ∃ last, (⟨before, offset, cs⟩ : Cursor).Steps (place offset pieces)
      ⟨last, offset + Text.byteLength cs, []⟩ := by
  induction h generalizing offset with
  | @nil before => exact ⟨before, .refl⟩
  | @cons before rule lexeme rest pieces hfirst _ ih =>
    obtain ⟨last, hsteps⟩ := ih (offset + Text.byteLength lexeme)
    refine ⟨last, ?_⟩
    rw [Text.byteLength_append, ← Nat.add_assoc]
    exact .step (Cursor.next?_of_firstRule? hfirst) hsteps

/-! ## The tiling -/

/-- The bytes that a match takes up. -/
def Match.span (m : Match) : Span := ⟨m.start, m.stop⟩

/-- `span` cuts `piece` out of `text`, between two boundaries of characters. -/
def Span.Cuts (span : Span) (text piece : String) : Prop :=
  ∃ front back, text = front ++ piece ++ back ∧ span.start = front.utf8ByteSize ∧
    span.stop = front.utf8ByteSize + piece.utf8ByteSize

/-- The byte at `offset` lies in the span. -/
def Span.Holds (span : Span) (offset : Nat) : Prop := span.start ≤ offset ∧ offset < span.stop

/-- `ms` lie side by side in `text`, from its first byte to its last. -/
structure Tiling (text : String) (ms : List Match) : Prop where
  first : ∀ m ∈ ms.head?, m.start = 0
  next : ms.IsChain fun m after => after.start = m.stop
  last : (ms.getLast?.map Match.stop).getD 0 = text.utf8ByteSize
  nonempty : ∀ m ∈ ms, m.start < m.stop
  cuts : ∀ m ∈ ms, m.span.Cuts text (String.ofList m.lexeme)

theorem start_of_mem_head?_place {offset : Nat} {pieces : List Piece} :
    ∀ m ∈ (place offset pieces).head?, m.start = offset := by
  intro m hm
  cases pieces with
  | nil => exact nomatch hm
  | cons piece pieces => rw [← Option.mem_some_iff.1 hm]

theorem isChain_place (offset : Nat) (pieces : List Piece) :
    (place offset pieces).IsChain fun m after => after.start = m.stop := by
  induction pieces generalizing offset with
  | nil => exact .nil
  | cons piece pieces ih =>
    rw [place, List.isChain_cons_iff]
    cases pieces with
    | nil => exact .inl rfl
    -- the next match starts where the first ended, since it is placed there
    | cons after pieces => exact .inr ⟨_, _, rfl, ih _, rfl⟩

theorem getLast?_place (offset : Nat) (pieces : List Piece) :
    ((place offset pieces).getLast?.map Match.stop).getD offset =
      offset + Text.byteLength (lexemes pieces) := by
  induction pieces generalizing offset with
  | nil => rfl
  | cons piece pieces ih =>
    rw [place, lexemes_cons, Text.byteLength_append, ← Nat.add_assoc, ← ih, List.getLast?_cons]
    cases (place (offset + Text.byteLength piece.lexeme) pieces).getLast? <;> rfl

theorem cuts_of_mem_place (front : List Char) {pieces : List Piece} {m : Match}
    (hm : m ∈ place (Text.byteLength front) pieces) :
    m.span.Cuts (String.ofList (front ++ lexemes pieces)) (String.ofList m.lexeme) := by
  induction pieces generalizing front with
  | nil => exact nomatch hm
  | cons piece pieces ih =>
    rw [place, List.mem_cons] at hm
    rcases hm with rfl | hm
    · -- the first piece has nothing before it but `front`
      refine ⟨String.ofList front, String.ofList (lexemes pieces), ?_, ?_, ?_⟩
      · rw [← String.ofList_append, ← String.ofList_append, lexemes_cons, List.append_assoc]
      · rw [Text.utf8ByteSize_ofList]
        rfl
      · rw [Text.utf8ByteSize_ofList, Text.utf8ByteSize_ofList]
        rfl
    · -- to the others it belongs to what is in front
      rw [← Text.byteLength_append] at hm
      have := ih (front ++ piece.lexeme) hm
      rwa [List.append_assoc] at this

/-- Every byte of the text lies in one of the matches. -/
theorem exists_mem_place_holds {pieces : List Piece} {offset byte : Nat} (hle : offset ≤ byte)
    (hlt : byte < offset + Text.byteLength (lexemes pieces)) :
    ∃ m ∈ place offset pieces, m.span.Holds byte := by
  induction pieces generalizing offset with
  | nil =>
    rw [lexemes_nil, Text.byteLength_nil] at hlt
    omega
  | cons piece pieces ih =>
    by_cases h : byte < offset + Text.byteLength piece.lexeme
    · exact ⟨_, List.mem_cons_self, hle, h⟩
    · rw [lexemes_cons, Text.byteLength_append, ← Nat.add_assoc] at hlt
      obtain ⟨m, hm, hholds⟩ := ih (Nat.le_of_not_lt h) hlt
      exact ⟨m, List.mem_cons_of_mem _ hm, hholds⟩

theorem lexeme_ne_nil_of_mem_allMatches {text : String} {m : Match} (hm : m ∈ allMatches text) :
    m.lexeme ≠ [] := by
  obtain ⟨pieces, hrun, hall⟩ := exists_run_text text
  have hpiece : m.piece ∈ (place 0 pieces).map Match.piece :=
    List.mem_map_of_mem (hall ▸ hm)
  -- the match is one of the pieces, which are never empty
  rw [place_map_piece] at hpiece
  exact hrun.lexeme_ne_nil m.piece hpiece

/-- The matches of a text lie side by side, from its first byte to its last. -/
theorem tiling_allMatches (text : String) : Tiling text (allMatches text) := by
  obtain ⟨pieces, hrun, hall⟩ := exists_run_text text
  refine ⟨?_, ?_, ?_, ?_, ?_⟩
  · rw [hall]
    exact start_of_mem_head?_place
  · rw [hall]
    exact isChain_place 0 pieces
  · rw [hall, getLast?_place, hrun.lexemes_eq, Nat.zero_add, Text.byteLength_toList]
  · intro m hm
    have := Text.byteLength_pos (lexeme_ne_nil_of_mem_allMatches hm)
    rw [Match.stop]
    omega
  · -- nothing stands before the first match
    intro m hm
    rw [hall] at hm
    have := cuts_of_mem_place [] hm
    rwa [List.nil_append, hrun.lexemes_eq, String.ofList_toList] at this

/-! ## What becomes of the matches -/

namespace Grammar

theorem Rule.isTrivia_eq_false_of_emit {rule : Rule} {kind : Kind}
    (h : rule.action = .emit kind) : kind.isTrivia = false := by
  cases rule <;> cases h <;> rfl

end Grammar

/-- A list sorted out by a condition, element by element. -/
private theorem forall₂_filter_filterMap {α β : Type} {p : α → Bool} {f : α → Option β}
    {R : α → β → Prop} (xs : List α) (hsome : ∀ x ∈ xs, p x = true → ∃ y, f x = some y ∧ R x y)
    (hnone : ∀ x, p x = false → f x = none) :
    List.Forall₂ R (xs.filter p) (xs.filterMap f) := by
  induction xs with
  | nil => exact .nil
  | cons x xs ih =>
    -- the condition is known of the others too
    have ih := ih fun y hy => hsome y (List.mem_cons_of_mem x hy)
    cases hp : p x with
    | true =>
      obtain ⟨y, hy, hR⟩ := hsome x List.mem_cons_self hp
      rw [List.filter_cons_of_pos hp, List.filterMap_cons_some hy]
      exact .cons hR ih
    | false =>
      rw [List.filter_cons_of_neg (by simp [hp]), List.filterMap_cons_none (hnone x hp)]
      exact ih

/-- `token` is what the match `m` of `text` becomes. -/
def Match.Becomes (text : String) (m : Match) (token : Token) : Prop :=
  m.rule.action = .emit token.kind ∧ token.kind ∈ Kind.emitted ∧ token.span = m.span ∧
    token.span.Cuts text token.value

/-- `diagnostic` is what the match `m` of `text` is reported as. -/
def Match.ReportedAs (m : Match) (diagnostic : Diagnostic) : Prop :=
  ∃ fault, m.rule.action = .diagnose fault ∧
    diagnostic = ⟨fault.problem (String.ofList m.lexeme), m.start⟩

/-- The tokens are the matches of rules that emit, in their order. -/
theorem forall₂_becomes_tokens (text : String) :
    List.Forall₂ (Match.Becomes text) ((allMatches text).filter (·.rule.action.emits))
      (scan text).tokens := by
  refine forall₂_filter_filterMap _ (fun m hm hemits => ?_) (fun m hemits => ?_)
  · obtain ⟨kind, haction⟩ := Grammar.Action.eq_of_emits hemits
    refine ⟨⟨kind, String.ofList m.lexeme, m.span⟩, ?_, haction, ?_, rfl, ?_⟩
    · rw [Match.token?, haction]
      rfl
    · exact Kind.mem_emitted.2 (Grammar.Rule.isTrivia_eq_false_of_emit haction)
    · exact (tiling_allMatches text).cuts m hm
  · unfold Match.token?
    cases haction : m.rule.action with
    | emit kind =>
      rw [haction] at hemits
      exact absurd hemits.symm Bool.false_ne_true
    | skip kind => rfl
    | diagnose fault => rfl

/-- The diagnostics are the matches of rules that report, in their order. -/
theorem forall₂_reportedAs_diagnostics (text : String) :
    List.Forall₂ Match.ReportedAs ((allMatches text).filter (·.rule.action.diagnoses))
      (scan text).diagnostics := by
  refine forall₂_filter_filterMap _ (fun m _ hdiagnoses => ?_) (fun m hdiagnoses => ?_)
  · obtain ⟨fault, haction⟩ := Grammar.Action.eq_of_diagnoses hdiagnoses
    refine ⟨⟨fault.problem (String.ofList m.lexeme), m.start⟩, ?_, fault, haction, rfl⟩
    rw [Match.diagnostic?, haction]
  · unfold Match.diagnostic?
    cases haction : m.rule.action with
    | emit kind => rfl
    | skip kind => rfl
    | diagnose fault =>
      rw [haction] at hdiagnoses
      exact absurd hdiagnoses.symm Bool.false_ne_true

/-- A byte that belongs to no token and to nothing reported belongs to a blank or a comment. -/
theorem byte_accounted_for {text : String} {byte : Nat} (hlt : byte < text.utf8ByteSize) :
    (∃ token ∈ (scan text).tokens, token.span.Holds byte) ∨
      (∃ m ∈ allMatches text, m.rule.action.diagnoses = true ∧ m.span.Holds byte) ∨
      ∃ m ∈ allMatches text, (m.rule = .whitespace ∨ m.rule = .comment) ∧ m.span.Holds byte := by
  obtain ⟨pieces, hrun, hall⟩ := exists_run_text text
  -- the byte lies in one of the matches, and its rule says what becomes of it
  obtain ⟨m, hm, hholds⟩ : ∃ m ∈ place 0 pieces, m.span.Holds byte :=
    exists_mem_place_holds (Nat.zero_le byte)
      (by rwa [hrun.lexemes_eq, Nat.zero_add, Text.byteLength_toList])
  rw [← hall] at hm
  cases haction : m.rule.action with
  | emit kind =>
    refine .inl ⟨⟨kind, String.ofList m.lexeme, m.span⟩, ?_, hholds⟩
    refine List.mem_filterMap.2 ⟨m, hm, ?_⟩
    rw [Match.token?, haction]
    rfl
  | diagnose fault => exact .inr (.inl ⟨m, hm, by rw [haction]; rfl, hholds⟩)
  | skip kind =>
    -- only blanks and comments are left out
    exact .inr (.inr ⟨m, hm, Grammar.Rule.eq_of_skips (by rw [haction]; rfl), hholds⟩)

/-- The scanner is lossless.  Its loop applies all matches of a text and stops at the end; wherever
it arrives before, a search of the whole text from there finds the match that it applies.  The
matches tile the text, so that there are at most as many as characters; they become the tokens and
the diagnostics in their order, and every other byte is blank or comment. -/
theorem scan_accounts_for_every_byte (text : String) :
    (∃ final, (Cursor.start text.toList).Steps (allMatches text) final ∧ final.next? = none) ∧
    (∀ seen c, (Cursor.start text.toList).Steps seen c →
      (c.next? = none ↔ text.utf8ByteSize ≤ c.offset) ∧
      matchAt text c.offset = .ok (c.next?.map Prod.fst) ∧
      seen.length ≤ text.toList.length) ∧
    Tiling text (allMatches text) ∧
    List.Forall₂ (Match.Becomes text) ((allMatches text).filter (·.rule.action.emits))
      (scan text).tokens ∧
    List.Forall₂ Match.ReportedAs ((allMatches text).filter (·.rule.action.diagnoses))
      (scan text).diagnostics ∧
    (∀ byte < text.utf8ByteSize,
      (∃ token ∈ (scan text).tokens, token.span.Holds byte) ∨
      (∃ m ∈ allMatches text, m.rule.action.diagnoses = true ∧ m.span.Holds byte) ∨
      ∃ m ∈ allMatches text, (m.rule = .whitespace ∨ m.rule = .comment) ∧ m.span.Holds byte) ∧
    (allMatches text).length ≤ text.toList.length := by
  obtain ⟨pieces, hrun, hall⟩ := exists_run_text text
  obtain ⟨last, hsteps⟩ := hrun.steps 0
  rw [← hall] at hsteps
  have hbound : ∀ seen c, (Cursor.start text.toList).Steps seen c →
      seen.length ≤ text.toList.length := fun seen c h =>
    Nat.le_trans (Nat.le_add_right _ _) h.length_add_le
  refine ⟨⟨_, hsteps, Cursor.next?_eq_none_iff.2 rfl⟩, fun seen c h => ?_, tiling_allMatches text,
    forall₂_becomes_tokens text, forall₂_reportedAs_diagnostics text,
    fun _ => byte_accounted_for, hbound _ _ hsteps⟩
  exact ⟨h.next?_spec.1, h.next?_spec.2, hbound seen c h⟩

end TokenCensus

import TokenCensus.Proofs.Run

/-!
# What a run holds

Some pieces become tokens, some are reported and some are skipped.  What becomes of a piece is told
by its rule; only the place that goes with it comes from the pieces before.  So what a stretch of
a source holds can be moved along it, put behind that of another stretch, and told without any
place.

## Key results

- `Scan.ofPieces_cons`, `Scan.ofPieces_add`: what a run holds, piece by piece and further on
- `Scan.map_content_ofPieces`, `Scan.map_problem_ofPieces`: tokens and problems without their places
- `Scan.timeline_ofPieces`: the places tell how tokens and problems alternate
-/

namespace TokenCensus

/-! ## What becomes of a piece -/

namespace Grammar

/-- Whether lexemes become tokens. -/
def Action.emits : Action → Bool
  | .emit _ => true
  | .skip _ | .diagnose _ => false

/-- Whether lexemes become diagnostics. -/
def Action.diagnoses : Action → Bool
  | .diagnose _ => true
  | .emit _ | .skip _ => false

/-- Whether nothing becomes of lexemes. -/
def Action.skips : Action → Bool
  | .skip _ => true
  | .emit _ | .diagnose _ => false

theorem Action.eq_of_emits {action : Action} (h : action.emits = true) :
    ∃ kind, action = .emit kind := by
  cases action with
  | emit kind => exact ⟨kind, rfl⟩
  | skip _ | diagnose _ => exact absurd h Bool.false_ne_true

theorem Action.eq_of_diagnoses {action : Action} (h : action.diagnoses = true) :
    ∃ fault, action = .diagnose fault := by
  cases action with
  | diagnose fault => exact ⟨fault, rfl⟩
  | emit _ | skip _ => exact absurd h Bool.false_ne_true

theorem Action.eq_of_skips {action : Action} (h : action.skips = true) :
    ∃ kind, action = .skip kind := by
  cases action with
  | skip kind => exact ⟨kind, rfl⟩
  | emit _ | diagnose _ => exact absurd h Bool.false_ne_true

theorem Rule.eq_of_skips {rule : Rule} (h : rule.action.skips = true) :
    rule = .whitespace ∨ rule = .comment := by
  cases rule with
  | whitespace => exact .inl rfl
  | comment => exact .inr rfl
  | _ => exact nomatch h

end Grammar

/-- The kind and the text of the token that a piece becomes. -/
def Piece.content? (piece : Piece) : Option (Kind × String) :=
  match piece.rule.action with
  | .emit kind => some (kind, String.ofList piece.lexeme)
  | .skip _ | .diagnose _ => none

/-- The problem that a piece is reported as. -/
def Piece.problem? (piece : Piece) : Option Problem :=
  match piece.rule.action with
  | .diagnose fault => some (fault.problem (String.ofList piece.lexeme))
  | .emit _ | .skip _ => none

/-- A token or a problem, wherever it stands. -/
inductive Item where
  | token (kind : Kind) (value : String)
  | problem (cause : Problem)
deriving DecidableEq, Repr

/-- What becomes of a piece. -/
def Piece.item? (piece : Piece) : Option Item :=
  match piece.rule.action with
  | .emit kind => some (.token kind (String.ofList piece.lexeme))
  | .diagnose fault => some (.problem (fault.problem (String.ofList piece.lexeme)))
  | .skip _ => none

theorem Piece.item?_of_skips {piece : Piece} (h : piece.rule.action.skips = true) :
    piece.content? = none ∧ piece.problem? = none ∧ piece.item? = none := by
  unfold content? problem? item?
  -- neither white space nor a comment is a token or a problem
  rcases Grammar.Rule.eq_of_skips h with hrule | hrule
  · rw [hrule]
    exact ⟨rfl, rfl, rfl⟩
  · rw [hrule]
    exact ⟨rfl, rfl, rfl⟩

/-- The kind and the text of a token, without its place. -/
def Token.content (token : Token) : Kind × String := (token.kind, token.value)

/-- The token as an item, with its place. -/
def Token.entry (token : Token) : Nat × Item :=
  (token.span.start, .token token.kind token.value)

/-- The problem as an item, with its place. -/
def Diagnostic.entry (diagnostic : Diagnostic) : Nat × Item :=
  (diagnostic.position, .problem diagnostic.problem)

/-- Tokens and problems as they alternate in the source, in the order of their places. -/
def Scan.timeline (scan : Scan) : List Item :=
  ((scan.tokens.map Token.entry).merge (scan.diagnostics.map Diagnostic.entry)
    fun a b => a.1 ≤ b.1).map Prod.snd

/-! ## Moving along a text -/

/-- The same match, `n` bytes further on. -/
def Match.shift (n : Nat) (m : Match) : Match := { m with start := m.start + n }

/-- The same token, `n` bytes further on. -/
def Token.shift (n : Nat) (token : Token) : Token :=
  { token with span := ⟨token.span.start + n, token.span.stop + n⟩ }

/-- The same diagnostic, `n` bytes further on. -/
def Diagnostic.shift (n : Nat) (diagnostic : Diagnostic) : Diagnostic :=
  { diagnostic with position := diagnostic.position + n }

/-- Further on, the same pieces are placed further on. -/
theorem place_add (offset n : Nat) (pieces : List Piece) :
    place (offset + n) pieces = (place offset pieces).map (Match.shift n) := by
  induction pieces generalizing offset with
  | nil => rfl
  | cons piece pieces ih =>
    simp only [place, List.map_cons, Nat.add_right_comm offset n, ih]
    rfl

theorem Match.token?_shift (n : Nat) (m : Match) :
    (m.shift n).token? = m.token?.map (Token.shift n) := by
  unfold token?
  -- skipped and reported matches have no token, wherever they are
  cases h : m.rule.action <;>
    simp [h, shift, Token.shift, stop, Nat.add_right_comm]

theorem Match.diagnostic?_shift (n : Nat) (m : Match) :
    (m.shift n).diagnostic? = m.diagnostic?.map (Diagnostic.shift n) := by
  unfold diagnostic?
  cases h : m.rule.action <;> simp [h, shift, Diagnostic.shift]

namespace Scan

/-- The same tokens and diagnostics, `n` bytes further on. -/
def shift (n : Nat) (scan : Scan) : Scan :=
  ⟨scan.tokens.map (Token.shift n), scan.diagnostics.map (Diagnostic.shift n)⟩

/-- What two stretches of a source hold together. -/
instance : Append Scan where
  append front back :=
    ⟨front.tokens ++ back.tokens, front.diagnostics ++ back.diagnostics⟩

@[simp] theorem tokens_append (front back : Scan) :
    (front ++ back).tokens = front.tokens ++ back.tokens := rfl

@[simp] theorem diagnostics_append (front back : Scan) :
    (front ++ back).diagnostics = front.diagnostics ++ back.diagnostics := rfl

theorem ofMatches_append (front back : List Match) :
    ofMatches (front ++ back) = ofMatches front ++ ofMatches back := by
  simp only [ofMatches, List.filterMap_append]
  rfl

theorem ofMatches_shift (n : Nat) (ms : List Match) :
    ofMatches (ms.map (Match.shift n)) = (ofMatches ms).shift n := by
  simp only [ofMatches, shift, List.filterMap_map, List.map_filterMap, Function.comp_def,
    Match.token?_shift, Match.diagnostic?_shift]

/-- What pieces hold that follow each other, the first of them at `offset`. -/
def ofPieces (offset : Nat) (pieces : List Piece) : Scan := ofMatches (place offset pieces)

@[simp] theorem ofPieces_nil (offset : Nat) : ofPieces offset [] = ⟨[], []⟩ := rfl

theorem ofPieces_cons (offset : Nat) (piece : Piece) (pieces : List Piece) :
    ofPieces offset (piece :: pieces) =
      ofPieces offset [piece] ++ ofPieces (offset + Text.byteLength piece.lexeme) pieces :=
  ofMatches_append [⟨piece.rule, offset, piece.lexeme⟩] _

/-- What pieces hold that stand behind others. -/
theorem ofPieces_append (offset : Nat) (front back : List Piece) :
    ofPieces offset (front ++ back) =
      ofPieces offset front ++ ofPieces (offset + Text.byteLength (lexemes front)) back := by
  rw [ofPieces, place_append, ofMatches_append]
  rfl

theorem ofPieces_of_emit {piece : Piece} {kind : Kind} (h : piece.rule.action = .emit kind)
    (offset : Nat) :
    ofPieces offset [piece] =
      ⟨[⟨kind, String.ofList piece.lexeme, ⟨offset, offset + Text.byteLength piece.lexeme⟩⟩],
        []⟩ := by
  simp [ofPieces, place, ofMatches, Match.token?, Match.diagnostic?, Match.stop, h]

theorem ofPieces_of_diagnose {piece : Piece} {fault : Grammar.Fault}
    (h : piece.rule.action = .diagnose fault) (offset : Nat) :
    ofPieces offset [piece] = ⟨[], [⟨fault.problem (String.ofList piece.lexeme), offset⟩]⟩ := by
  simp [ofPieces, place, ofMatches, Match.token?, Match.diagnostic?, h]

theorem ofPieces_of_problem? {piece : Piece} {problem : Problem}
    (h : piece.problem? = some problem) (offset : Nat) :
    ofPieces offset [piece] = ⟨[], [⟨problem, offset⟩]⟩ := by
  -- only a rule that reports gives a problem
  unfold Piece.problem? at h
  cases haction : piece.rule.action with
  | diagnose fault =>
    rw [haction, Option.some.injEq] at h
    rw [ofPieces_of_diagnose haction, h]
  | emit kind | skip kind =>
    rw [haction] at h
    exact nomatch h

theorem ofPieces_of_skip {piece : Piece} {kind : Kind} (h : piece.rule.action = .skip kind)
    (offset : Nat) : ofPieces offset [piece] = ⟨[], []⟩ := by
  simp [ofPieces, place, ofMatches, Match.token?, Match.diagnostic?, h]

/-- Of white space only the length is left. -/
theorem ofPieces_whitespace (offset : Nat) (blanks : List Char) (pieces : List Piece) :
    ofPieces offset (⟨.whitespace, blanks⟩ :: pieces) =
      ofPieces (offset + Text.byteLength blanks) pieces := rfl

theorem ofPieces_add (offset n : Nat) (pieces : List Piece) :
    ofPieces (offset + n) pieces = (ofPieces offset pieces).shift n := by
  rw [ofPieces, place_add, ofMatches_shift, ofPieces]

@[simp] theorem append_empty (scan : Scan) : scan ++ ⟨[], []⟩ = scan := by
  show Scan.mk _ _ = scan
  simp

theorem append_assoc (a b c : Scan) : a ++ b ++ c = a ++ (b ++ c) := by
  show Scan.mk _ _ = Scan.mk _ _
  simp

/-! ## Without places -/

/-- What the match of a piece becomes does not depend on its place, but for the place itself. -/
private theorem filterMap_place {α : Type} {f : Match → Option α} {g : Piece → Option α}
    (h : ∀ m, f m = g m.piece) (offset : Nat) (pieces : List Piece) :
    (place offset pieces).filterMap f = pieces.filterMap g := by
  -- both filters look at the piece only, and the pieces of the places are those placed
  have hcomp : f = g ∘ Match.piece := funext h
  rw [hcomp, ← List.filterMap_map, place_map_piece]

theorem map_content_ofPieces (offset : Nat) (pieces : List Piece) :
    (ofPieces offset pieces).tokens.map Token.content = pieces.filterMap Piece.content? := by
  show ((place offset pieces).filterMap Match.token?).map Token.content = _
  rw [List.map_filterMap]
  refine filterMap_place (fun m => ?_) offset pieces
  unfold Match.token? Piece.content? Match.piece
  cases m.rule.action <;> rfl

theorem map_problem_ofPieces (offset : Nat) (pieces : List Piece) :
    (ofPieces offset pieces).diagnostics.map Diagnostic.problem =
      pieces.filterMap Piece.problem? := by
  show ((place offset pieces).filterMap Match.diagnostic?).map Diagnostic.problem = _
  rw [List.map_filterMap]
  refine filterMap_place (fun m => ?_) offset pieces
  unfold Match.diagnostic? Piece.problem? Match.piece
  cases m.rule.action <;> rfl

/-! ## The order of tokens and problems -/

theorem le_start_of_mem_place {offset : Nat} {pieces : List Piece} :
    ∀ m ∈ place offset pieces, offset ≤ m.start := by
  induction pieces generalizing offset with
  | nil => exact nofun
  | cons piece pieces ih =>
    intro m hm
    -- each piece starts where the one before ends, so none starts before the first
    rcases List.mem_cons.1 hm with rfl | hm
    · exact Nat.le_refl offset
    · have := ih m hm
      omega

theorem le_fst_of_mem_tokens {offset : Nat} {pieces : List Piece} :
    ∀ entry ∈ (ofPieces offset pieces).tokens.map Token.entry, offset ≤ entry.1 := by
  intro entry hentry
  obtain ⟨token, htoken, rfl⟩ := List.mem_map.1 hentry
  -- a token starts where its match does
  obtain ⟨m, hm, hsome⟩ := List.mem_filterMap.1 htoken
  obtain ⟨kind, -, rfl⟩ := Match.token?_eq_some_iff.1 hsome
  exact le_start_of_mem_place m hm

theorem le_fst_of_mem_diagnostics {offset : Nat} {pieces : List Piece} :
    ∀ entry ∈ (ofPieces offset pieces).diagnostics.map Diagnostic.entry, offset ≤ entry.1 := by
  intro entry hentry
  obtain ⟨diagnostic, hdiagnostic, rfl⟩ := List.mem_map.1 hentry
  obtain ⟨m, hm, hsome⟩ := List.mem_filterMap.1 hdiagnostic
  obtain ⟨fault, -, rfl⟩ := Match.diagnostic?_eq_some_iff.1 hsome
  exact le_start_of_mem_place m hm

/-- What comes before all of the other list comes first. -/
private theorem cons_merge {α : Type} {le : α → α → Bool} {x : α} {ys : List α}
    (h : ∀ y ∈ ys, le x y = true) (xs : List α) :
    (x :: xs).merge ys le = x :: xs.merge ys le := by
  -- an empty list is merged as it is, and otherwise the heads are compared
  cases ys with
  | nil => simp
  | cons y ys => exact List.cons_merge_cons_pos le xs ys (h y List.mem_cons_self)

private theorem merge_cons {α : Type} {le : α → α → Bool} {xs : List α} {y : α}
    (h : ∀ x ∈ xs, le x y = false) (ys : List α) :
    xs.merge (y :: ys) le = y :: xs.merge ys le := by
  cases xs with
  | nil => simp
  | cons x xs =>
    exact List.cons_merge_cons_neg le xs ys (by rw [h x List.mem_cons_self]; exact nofun)

/-- The places of tokens and problems tell how they alternate. -/
theorem timeline_ofPieces {pieces : List Piece} (hne : ∀ piece ∈ pieces, piece.lexeme ≠ [])
    (offset : Nat) : (ofPieces offset pieces).timeline = pieces.filterMap Piece.item? := by
  -- what comes later lies behind the first piece, so the merge takes the first piece first
  induction pieces generalizing offset with
  | nil => simp [timeline]
  | cons piece pieces ih =>
    have hpos := Text.byteLength_pos (hne piece List.mem_cons_self)
    have ih := ih (fun other hother => hne other (List.mem_cons_of_mem _ hother))
      (offset + Text.byteLength piece.lexeme)
    rw [ofPieces_cons]
    unfold timeline at ih ⊢
    rw [tokens_append, diagnostics_append]
    cases haction : piece.rule.action with
    -- the token comes before all that is reported later
    | emit kind =>
      rw [ofPieces_of_emit haction, List.singleton_append, List.nil_append, List.map_cons,
        cons_merge]
      · rw [List.map_cons, ih, List.filterMap_cons_some (by rw [Piece.item?, haction])]
        rfl
      · intro entry hentry
        have := le_fst_of_mem_diagnostics entry hentry
        exact decide_eq_true (Nat.le_trans (Nat.le_add_right _ _) this)
    -- the problem comes before all tokens that follow
    | diagnose fault =>
      rw [ofPieces_of_diagnose haction, List.singleton_append, List.nil_append, List.map_cons,
        merge_cons]
      · rw [List.map_cons, ih, List.filterMap_cons_some (by rw [Piece.item?, haction])]
        rfl
      · intro entry hentry
        have := le_fst_of_mem_tokens entry hentry
        refine decide_eq_false (Nat.not_le_of_lt ?_)
        show offset < entry.1
        omega
    -- neither list gets anything
    | skip kind =>
      rw [ofPieces_of_skip haction, List.nil_append, List.nil_append, ih,
        List.filterMap_cons_none (by rw [Piece.item?, haction])]

end Scan

/-- What a source holds is what its run holds, from the start. -/
theorem scan_eq_ofPieces {text : String} {pieces : List Piece} (h : Run none text.toList pieces) :
    scan text = Scan.ofPieces 0 pieces := by
  have hall : allMatches text = place 0 pieces := h.found_eq 0
  rw [scan, hall, Scan.ofPieces]

/-- A problem is reported only of a piece that has it. -/
theorem exists_piece_of_mem_diagnostics {offset : Nat} {pieces : List Piece}
    {diagnostic : Diagnostic} (h : diagnostic ∈ (Scan.ofPieces offset pieces).diagnostics) :
    ∃ piece ∈ pieces, piece.problem? = some diagnostic.problem := by
  -- problems without their places are those of the pieces
  have hmem := List.mem_map_of_mem (f := Diagnostic.problem) h
  rw [Scan.map_problem_ofPieces] at hmem
  exact List.mem_filterMap.1 hmem

/-- The problem of a piece is reported. -/
theorem exists_diagnostic_of_problem? {text : String} {pieces : List Piece}
    (h : Run none text.toList pieces) {piece : Piece} (hpiece : piece ∈ pieces)
    {problem : Problem} (hproblem : piece.problem? = some problem) :
    ∃ diagnostic ∈ (scan text).diagnostics, diagnostic.problem = problem := by
  have hmem : problem ∈ (scan text).diagnostics.map Diagnostic.problem := by
    rw [scan_eq_ofPieces h, Scan.map_problem_ofPieces]
    exact List.mem_filterMap.2 ⟨piece, hpiece, hproblem⟩
  exact List.mem_map.1 hmem

end TokenCensus

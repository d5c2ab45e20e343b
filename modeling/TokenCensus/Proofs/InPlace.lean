import TokenCensus.Proofs.Content
import TokenCensus.Proofs.WordByte

/-!
# Scanning from the middle of a text

A scan may start at any place between two characters of a text.  It sees what stands before that
place, unlike a scan of what stands behind it alone.  The difference is one word at most.  Behind
the last character of a word, a reserved word is an identifier; everything else is found as at the
start of a text, and so is all that follows.

## Key results

- `firstRule?_of_isWord`: what is found behind a word, told from what is found at the start
- `Run.of_isWord`: only the first piece of a run can differ
- `SearchesTo.of_run`: searching a text again and again gives the run from there
- `searchesTo_append`: scanning in place against scanning what stands behind the place
-/

namespace TokenCensus

open Grammar (Rule Stops firstRule? isWord isWordByte keywords keywordSpellings)

/-! ## Behind a word -/

namespace Grammar

/-- What a lexeme is behind a word: a reserved word is no longer one. -/
def Rule.behindWord : Rule → Rule
  | keyword => identifier
  | rule => rule

theorem isIdentifier_of_mem_keywordSpellings {word : List Char} (h : word ∈ keywordSpellings) :
    Lexeme.IsIdentifier word := by
  cases word with
  | nil => exact absurd h Lexeme.nil_not_mem_keywordSpellings
  | cons c cs =>
    have hall := Lexeme.isWord_of_mem_keywordSpellings _ h
    exact ⟨c, cs, rfl, Rule.isWordStart_of_mem_keywordSpellings h,
      fun d hd => hall d (List.mem_cons_of_mem c hd)⟩

/-- Behind a word, the lexeme is the one at the start of a text. -/
theorem firstRule?_of_isWord {before : Option Char} {rule : Rule} {lexeme rest : List Char}
    (h : firstRule? none (lexeme ++ rest) = some (rule, lexeme.length))
    (hword : before.any isWord = true) :
    firstRule? before (lexeme ++ rest) = some (rule.behindWord, lexeme.length) := by
  obtain ⟨hfits, hfree⟩ := firstRule?_append_iff.1 h
  -- a word before keeps reserved words from being found, and that only
  have hunreserved : Rule.identifier.Unclaimed before lexeme rest := by
    intro hbefore
    rw [hword] at hbefore
    exact nomatch hbefore
  apply firstRule?_append_iff.2
  -- what holds of a lexeme at the start holds of it here, but for the boundary before it
  cases rule with
  | keyword =>
    have hidentifier := isIdentifier_of_mem_keywordSpellings hfits.2.1
    exact ⟨⟨hidentifier, hfits.2.2⟩, hunreserved⟩
  | identifier => exact ⟨hfits, hunreserved⟩
  | whitespace | comment | unterminatedComment | operator | constant | literal
  | unterminatedLiteral | punctuator | unrecognised => exact ⟨hfits, hfree⟩

end Grammar

/-- The piece as it is found behind a word. -/
def Piece.behindWord (piece : Piece) : Piece := { piece with rule := piece.rule.behindWord }

theorem Piece.behindWord_of_ne {piece : Piece} (h : piece.rule ≠ .keyword) :
    piece.behindWord = piece := by
  obtain ⟨rule, lexeme⟩ := piece
  cases rule with
  | keyword => exact absurd rfl h
  | _ => rfl

/-- Behind a word, only the first piece of a run can differ. -/
theorem Run.of_isWord {before : Option Char} {cs : List Char} {piece : Piece}
    {pieces : List Piece} (h : Run none cs (piece :: pieces)) (hword : before.any isWord = true) :
    Run before cs (piece.behindWord :: pieces) := by
  -- behind the first piece both runs go on from the same character
  cases h with
  | cons hfirst hrest => exact .cons (Grammar.firstRule?_of_isWord hfirst hword) hrest

/-! ## Searching a text again and again -/

/-- `SearchesTo text position ms`: searching `text` from the byte `position`, and then each time
from where the last match ended, finds the matches `ms` and comes to the end of the text. -/
inductive SearchesTo (text : String) : Nat → List Match → Prop where
  | done {position : Nat} (hend : text.utf8ByteSize ≤ position) : SearchesTo text position []
  | next {position : Nat} {m : Match} {ms : List Match} (hlt : position < text.utf8ByteSize)
    (hmatch : matchAt text position = .ok (some m)) (hrest : SearchesTo text m.stop ms) :
    SearchesTo text position (m :: ms)

/-- A search from a place between two characters finds the match there. -/
theorem matchAt_of_firstRule? {front lexeme rest : List Char} {rule : Rule}
    (h : firstRule? front.getLast? (lexeme ++ rest) = some (rule, lexeme.length)) :
    matchAt (String.ofList (front ++ (lexeme ++ rest))) (Text.byteLength front) =
      .ok (some ⟨rule, Text.byteLength front, lexeme⟩) := by
  -- the search starts inside of the text, and not beyond its end
  have hle : ¬ (String.ofList (front ++ (lexeme ++ rest))).utf8ByteSize + 1 <
      Text.byteLength front := by
    rw [Text.utf8ByteSize_ofList, Text.byteLength_append]
    omega
  rw [matchAt, if_neg hle, String.toList_ofList, Cursor.seek_ofSplit, Cursor.ofSplit,
    Cursor.next?_of_firstRule? h]
  rfl

/-- Searching a text again and again from a place between two characters gives the run there. -/
theorem SearchesTo.of_run {front cs : List Char} {pieces : List Piece}
    (h : Run front.getLast? cs pieces) :
    SearchesTo (String.ofList (front ++ cs)) (Text.byteLength front)
      (place (Text.byteLength front) pieces) := by
  -- the induction moves `front` along with the run, so only its last character is kept
  generalize hbefore : front.getLast? = before at h
  induction h generalizing front with
  | nil =>
    apply SearchesTo.done
    simp [Text.utf8ByteSize_ofList]
  | @cons before rule lexeme rest pieces hfirst _ ih =>
    subst hbefore
    have hne : lexeme ≠ [] := List.length_pos_iff.1 (Grammar.firstRule?_pos hfirst)
    -- what the next piece has before it is the last character of this one
    have hlast : (front ++ lexeme).getLast? = lexeme.getLast? := by
      rw [List.getLast?_append, List.getLast?_eq_some_getLast hne, Option.some_or]
    have hrest := ih hlast
    rw [List.append_assoc, Text.byteLength_append] at hrest
    have hpos := Text.byteLength_pos hne
    apply SearchesTo.next _ (matchAt_of_firstRule? hfirst) hrest
    -- a piece has a byte at least, so the search has not come to the end
    rw [Text.utf8ByteSize_ofList, Text.byteLength_append, Text.byteLength_append]
    omega

/-! ## In place and apart -/

/-- The matches of a text from the byte `position` on. -/
def matchesFrom (text : String) (position : Nat) : List Match :=
  (Cursor.seek text.toList position).found

/-- `rest` starts with a reserved word, and the byte behind it is not the ASCII code of a character
of words. -/
def StartsReserved (rest : String) : Prop :=
  ∃ word ∈ keywords, ∃ tail, rest = word ++ tail ∧
    (Text.Utf8.encode tail).head?.any isWordByte = false

/-- `rest` starts with a reserved word, and the last byte before it is the ASCII code of a character
of words. -/
def GluedReserved (front rest : String) : Prop :=
  (Text.Utf8.encode front).getLast?.any isWordByte = true ∧ StartsReserved rest

theorem matchesFrom_append {front rest : List Char} {pieces : List Piece}
    (h : Run front.getLast? rest pieces) :
    matchesFrom (String.ofList (front ++ rest)) (Text.byteLength front) =
      place (Text.byteLength front) pieces := by
  rw [matchesFrom, String.toList_ofList, Cursor.seek_ofSplit]
  exact h.found_eq _

/-- A reserved word at the start of a text is found as one. -/
theorem Run.exists_keyword {rest : String} {pieces : List Piece} (h : Run none rest.toList pieces)
    (hreserved : StartsReserved rest) : ∃ word others, pieces = ⟨.keyword, word⟩ :: others := by
  obtain ⟨word, hword, tail, rfl, htail⟩ := hreserved
  -- the condition on bytes is the boundary behind the word
  rw [Grammar.head?_encode_any] at htail
  have hfits : Rule.keyword.Fits none word.toList tail.toList :=
    ⟨rfl, List.mem_map_of_mem hword, Grammar.stops_iff.2 htail⟩
  have hfirst := Grammar.firstRule?_append_iff.2 ⟨hfits, trivial⟩
  rw [String.toList_append] at h
  obtain ⟨others, hcons, -⟩ := h.eq_cons hfirst
  exact ⟨word.toList, others, hcons⟩

/-- What is found as a reserved word at the start of a text is one. -/
theorem Run.startsReserved {rest : String} {piece : Piece} {pieces : List Piece}
    (h : Run none rest.toList (piece :: pieces)) (hrule : piece.rule = .keyword) :
    StartsReserved rest := by
  -- the run is taken apart at the characters of `rest`, which have to be a variable for that
  generalize hchars : rest.toList = chars at h
  cases h with
  | @cons _ rule lexeme tail _ hfirst _ =>
    obtain rfl : rule = .keyword := hrule
    obtain ⟨-, hmem, hstops⟩ := (Grammar.firstRule?_append_iff.1 hfirst).1
    obtain ⟨word, hword, hspells⟩ := List.mem_map.1 hmem
    refine ⟨word, hword, String.ofList tail, ?_, ?_⟩
    · rw [← String.toList_inj, hchars, String.toList_append, hspells, String.toList_ofList]
    · rw [Grammar.head?_encode_any, String.toList_ofList]
      exact Grammar.stops_iff.1 hstops

/-- The run in place: it is the run of what stands behind the place, but for a reserved word that
stands there behind a word. -/
theorem Run.exists_in_place (front : String) {rest : String} {pieces : List Piece}
    (h : Run none rest.toList pieces) :
    ∃ others, Run front.toList.getLast? rest.toList others ∧
      (¬ GluedReserved front rest → others = pieces) ∧
      (GluedReserved front rest → ∃ word tail,
        others = ⟨.identifier, word⟩ :: tail ∧ pieces = ⟨.keyword, word⟩ :: tail) := by
  rw [GluedReserved, Grammar.getLast?_encode_any]
  cases hword : front.toList.getLast?.any isWord with
  -- no word before it: the run is the same
  | false =>
    refine ⟨pieces, h.congr hword, fun _ => rfl, ?_⟩
    intro hglued
    exact nomatch hglued.1
  | true =>
    -- the reserved word is the first piece, and an identifier in place
    by_cases hreserved : StartsReserved rest
    · obtain ⟨word, tail, rfl⟩ := h.exists_keyword hreserved
      refine ⟨⟨.identifier, word⟩ :: tail, h.of_isWord hword, ?_, fun _ => ⟨word, tail, rfl, rfl⟩⟩
      intro hnot
      exact absurd ⟨rfl, hreserved⟩ hnot
    · have hnot : ¬ (true = true ∧ StartsReserved rest) := fun hglued => hreserved hglued.2
      -- no reserved word at the start, so `behindWord` changes nothing
      cases pieces with
      | nil =>
        rw [← h.lexemes_eq]
        exact ⟨[], .nil, fun _ => rfl, fun hglued => absurd hglued hnot⟩
      | cons piece pieces =>
        have hrule : piece.rule ≠ .keyword := fun hrule => hreserved (h.startsReserved hrule)
        have hbehind := h.of_isWord hword
        rw [Piece.behindWord_of_ne hrule] at hbehind
        exact ⟨_, hbehind, fun _ => rfl, fun hglued => absurd hglued hnot⟩

/-- A scan from a place between two characters against a scan of what stands behind the place.
Both find the same, unless a reserved word stands there and a word ends before it: then the scan of
the whole text finds an identifier in its place, and all else is the same. -/
theorem searchesTo_append (front rest : String) :
    SearchesTo (front ++ rest) front.utf8ByteSize (matchesFrom (front ++ rest) front.utf8ByteSize) ∧
    SearchesTo rest 0 (allMatches rest) ∧
    (¬ GluedReserved front rest →
      matchesFrom (front ++ rest) front.utf8ByteSize =
        (allMatches rest).map (Match.shift front.utf8ByteSize)) ∧
    (GluedReserved front rest → ∃ word others,
      matchesFrom (front ++ rest) front.utf8ByteSize =
        ⟨.identifier, front.utf8ByteSize, word⟩ :: others ∧
      (allMatches rest).map (Match.shift front.utf8ByteSize) =
        ⟨.keyword, front.utf8ByteSize, word⟩ :: others) := by
  obtain ⟨pieces, hpieces, hall⟩ := exists_run_text rest
  obtain ⟨others, hothers, hsame, hglued⟩ := hpieces.exists_in_place front
  have hsplit : String.ofList (front.toList ++ rest.toList) = front ++ rest := by
    rw [← String.toList_append, String.ofList_toList]
  have hin := matchesFrom_append hothers
  have hsearch := SearchesTo.of_run hothers
  have happart : SearchesTo (String.ofList ([] ++ rest.toList)) (Text.byteLength [])
      (place (Text.byteLength []) pieces) := SearchesTo.of_run hpieces
  rw [hsplit, Text.byteLength_toList] at hin hsearch
  rw [List.nil_append, String.ofList_toList, Text.byteLength_nil] at happart
  -- moved to `front`, the matches of `rest` are those of its run placed there
  have hshift : (allMatches rest).map (Match.shift front.utf8ByteSize) =
      place front.utf8ByteSize pieces := by
    rw [hall, ← place_add, Nat.zero_add]
  rw [hin, hshift]
  refine ⟨hsearch, hall ▸ happart, ?_, ?_⟩
  · -- the runs are the same
    intro h
    rw [hsame h]
  · -- they differ in the rule of the first piece
    intro h
    obtain ⟨word, tail, rfl, rfl⟩ := hglued h
    exact ⟨word, _, rfl, rfl⟩

end TokenCensus

import TokenCensus.Proofs.InPlace
import TokenCensus.Proofs.MaximalMunch
import TokenCensus.Proofs.Tiling

/-!
# Where words begin and end

A word token goes on as far as it can, so no character of a word follows it.  Before it there may
be one.  Then a reserved word is no longer reserved: in `1if` the scanner finds a number and an
identifier.  A number is the only thing that can end in the middle of what looks like a word, and
only where its last byte is a digit.  All other matches end in a character of another class, or
leave one behind them, or end with the text.

Words are ASCII.  A character beyond ASCII is a boundary on both sides of a word.

## Key results

- `Grammar.eq_constant_of_isWord`: only a number ends in a word that goes on
- `firstRule?_of_infix`: two matches that follow each other, each found at its place
- `keyword_mem_tokens_iff`: where a reserved word stands for itself
- `keyword_or_identifier`: reserved words, identifiers, and what touches them
-/

namespace TokenCensus

open Grammar (Rule Stops firstRule? isWord isWordByte isCodeOf keywords keywordSpellings)

/-! ## What can touch a word -/

namespace Grammar

theorem Exponent.isDigit_of_mem_getLast? {e : Exponent} :
    ∀ c ∈ e.chars.getLast?, c.isDigit = true := by
  intro c hc
  rw [Exponent.chars, ← List.cons_append, List.getLast?_append_of_ne_nil _ e.digits_ne] at hc
  exact e.digits_ok c (List.mem_of_getLast? hc)

theorem Mantissa.isDigit_or_eq_of_mem {m : Mantissa} :
    ∀ c ∈ m.chars, c.isDigit = true ∨ c = '.' := by
  intro c hc
  rw [Mantissa.chars, List.mem_append] at hc
  rcases hc with hwhole | hfraction
  · exact .inl (m.whole_ok c hwhole)
  · cases hf : m.fraction with
    | none => simp [hf] at hfraction
    | some digits =>
      rw [hf, Option.elim_some, List.mem_cons] at hfraction
      rcases hfraction with hpoint | hdigit
      · exact .inr hpoint
      · exact .inl (m.fraction_ok digits hf c hdigit)

/-- A number ends in a digit or in its point. -/
theorem Number.isDigit_or_eq_of_mem_getLast? {n : Number} :
    ∀ c ∈ n.chars.getLast?, c.isDigit = true ∨ c = '.' := by
  intro c hc
  cases he : n.exponent with
  | some e =>
    have hne : e.chars ≠ [] := List.cons_ne_nil _ _
    rw [Number.chars, he, Option.elim_some, ← List.append_assoc,
      List.getLast?_append_of_ne_nil _ hne] at hc
    exact .inl (Exponent.isDigit_of_mem_getLast? c hc)
  | none =>
    have hne : n.mantissa.chars ≠ [] := by
      obtain ⟨d, ds, hds, -⟩ := n.mantissa.exists_head
      simp [hds]
    rw [Number.chars, he, Option.elim_none, List.append_nil,
      List.getLast?_append_of_ne_nil _ hne] at hc
    exact Mantissa.isDigit_or_eq_of_mem c (List.mem_of_getLast? hc)

/-- Only a number ends in a character of a word that goes on behind it, and that character is a
digit. -/
theorem eq_constant_of_isWord {before : Option Char} {rule : Rule} {lexeme rest : List Char}
    (h : firstRule? before (lexeme ++ rest) = some (rule, lexeme.length))
    (hlast : lexeme.getLast?.any isWord = true) (hrest : rest.head?.any isWord = true) :
    rule = .constant ∧ lexeme.getLast?.any Char.isDigit = true := by
  obtain ⟨hfits, hfree⟩ := firstRule?_append_iff.1 h
  -- there is a last character, since it belongs to a word
  obtain ⟨c, hc⟩ : ∃ c, lexeme.getLast? = some c := by
    cases hlexeme : lexeme.getLast? with
    | none => simp [hlexeme] at hlast
    | some c => exact ⟨c, rfl⟩
  have hmem : c ∈ lexeme := List.mem_of_getLast? hc
  rw [hc, Option.any_some] at hlast ⊢
  -- what ends a word, or ends with the text, leaves nothing of a word behind it
  have hgoes : ∀ p : Char → Bool, (∀ d, isWord d = true → p d = true) → ¬ Stops p rest := by
    intro p hp hstops
    have hno := stops_iff.1 (hstops.mono hp)
    rw [hrest] at hno
    exact nomatch hno
  cases rule with
  | whitespace =>
    rw [isWord_eq_false_of_isBlank (hfits.2.1 c hmem)] at hlast
    exact nomatch hlast
  | comment =>
    rcases hfits with ⟨-, hstops⟩ | ⟨body, rfl, -⟩
    · -- a word character would continue a comment up to the end of its line
      refine absurd hstops (hgoes _ fun d hd => ?_)
      rw [decide_eq_true_eq]
      rintro rfl
      exact absurd hd (by decide)
    · -- a closed comment ends in a slash
      obtain rfl : '/' = c := by simpa [List.getLast?_cons, List.getLast?_append] using hc
      exact absurd hlast (by decide)
  | unterminatedComment | unterminatedLiteral =>
    obtain ⟨-, rfl⟩ := hfits
    exact nomatch hrest
  | keyword => exact absurd hfits.2.2 (hgoes _ fun _ => id)
  | identifier => exact absurd hfits.2 (hgoes _ fun _ => id)
  | operator =>
    have hno : ∀ operator ∈ operatorSpellings, operator.any isWord = false := by decide
    exact absurd hlast (List.any_eq_false.1 (hno lexeme hfits.1) c hmem)
  | constant =>
    -- a number ends in a digit or in a point, and a point belongs to no word
    obtain ⟨n, rfl, -⟩ := hfits
    rcases Number.isDigit_or_eq_of_mem_getLast? c hc with hdigit | rfl
    · exact ⟨rfl, hdigit⟩
    · exact absurd hlast (by decide)
  | literal =>
    -- a literal ends in its quote
    obtain ⟨body, rfl, -⟩ := hfits
    obtain rfl : '"' = c := by simpa [List.getLast?_cons, List.getLast?_append] using hc
    exact absurd hlast (by decide)
  | punctuator =>
    have hno : punctuators.any isWord = false := by decide
    obtain ⟨d, hd, rfl⟩ := hfits
    obtain rfl : c = d := List.mem_singleton.1 hmem
    exact absurd hlast (List.any_eq_false.1 hno c hd)
  | unrecognised =>
    rw [Rule.isWord_eq_false_of_unknown (hfree c hmem)] at hlast
    exact nomatch hlast

/-- No two rules do the same with their lexemes. -/
theorem Rule.action_injective {rule other : Rule} (h : rule.action = other.action) :
    rule = other := by
  have hall : ∀ rule ∈ all, ∀ other ∈ all, rule.action = other.action → rule = other := by decide
  exact hall rule (mem_all rule) other (mem_all other) h

/-- A reserved word is found as one or as an identifier, as the character before it decides. -/
theorem eq_keyword_or_identifier {before : Option Char} {rule : Rule} {lexeme rest : List Char}
    (h : firstRule? before (lexeme ++ rest) = some (rule, lexeme.length))
    (hmem : lexeme ∈ keywordSpellings) (hemits : rule.action.emits = true) :
    rule = .keyword ∨ rule = .identifier := by
  have hfits := (firstRule?_append_iff.1 h).1
  obtain ⟨c, cs, rfl⟩ := List.exists_cons_of_ne_nil hfits.ne_nil
  have hc := Rule.isWordStart_of_mem_keywordSpellings hmem
  have hstarts := Rule.starts_of_fits hfits
  -- an operator, a number, a literal and a punctuator start with other characters
  have hrule : rule ∉ [.operator, .constant, .literal, .unterminatedLiteral, .punctuator] := by
    intro hmem
    rw [Rule.starts_eq_false_behind_word hc rule hmem] at hstarts
    exact nomatch hstarts
  cases rule with
  | keyword => exact .inl rfl
  | identifier => exact .inr rfl
  | operator | constant | literal | punctuator => exact absurd (by decide) hrule
  | whitespace | comment | unterminatedComment | unterminatedLiteral | unrecognised =>
    exact nomatch hemits

/-- Where a word is found, a reserved one is found as one unless a word ends before it. -/
theorem keyword_iff_of_firstRule? {before : Option Char} {rule : Rule} {lexeme rest : List Char}
    (h : firstRule? before (lexeme ++ rest) = some (rule, lexeme.length))
    (hrule : rule = .keyword ∨ rule = .identifier) :
    (rule = .keyword ↔ lexeme ∈ keywordSpellings ∧ before.any isWord = false) ∧
      Stops isWord rest := by
  obtain ⟨hfits, hfree⟩ := firstRule?_append_iff.1 h
  rcases hrule with rfl | rfl
  · exact ⟨iff_of_true rfl ⟨hfits.2.1, hfits.1⟩, hfits.2.2⟩
  · -- a reserved word with no word before it would have been found as one
    refine ⟨iff_of_false nofun fun hreserved => ?_, hfits.2⟩
    exact hfree hreserved.2 hreserved.1

end Grammar

/-! ## The bytes around a place -/

/-- The byte of `text` right before the byte `offset`. -/
def Text.byteBefore? (text : String) (offset : Nat) : Option UInt8 :=
  ((Utf8.encode text).take offset).getLast?

/-- The byte of `text` at `offset`. -/
def Text.byteAt? (text : String) (offset : Nat) : Option UInt8 := (Utf8.encode text)[offset]?

theorem Text.Utf8.encode_append (front back : String) :
    encode (front ++ back) = encode front ++ encode back := by
  rw [encode_eq, encode_eq, encode_eq, String.toList_append, List.flatMap_append]

theorem Text.Utf8.length_encode (text : String) : (encode text).length = text.utf8ByteSize := by
  rw [encode, Array.length_toList]
  rfl

/-- Before a place between characters stands the last byte of what is in front of it. -/
theorem Text.byteBefore?_append (front back : String) :
    byteBefore? (front ++ back) front.utf8ByteSize = (Utf8.encode front).getLast? := by
  rw [byteBefore?, Utf8.encode_append, ← Utf8.length_encode, List.take_left]

/-- At a place between characters stands the first byte of what is behind it. -/
theorem Text.byteAt?_append (front back : String) :
    byteAt? (front ++ back) front.utf8ByteSize = (Utf8.encode back).head? := by
  rw [byteAt?, Utf8.encode_append, ← Utf8.length_encode, List.getElem?_append_right (Nat.le_refl _),
    Nat.sub_self, List.head?_eq_getElem?]

/-- The last byte before a place tells which character stands there, if it is ASCII. -/
theorem Text.byteBefore?_any {p : Char → Bool} (hp : ∀ c, p c = true → c.toNat < 128)
    {text : String} {front back : List Char} (h : text.toList = front ++ back) :
    (byteBefore? text (byteLength front)).any (isCodeOf p) = front.getLast?.any p := by
  have htext : text = String.ofList front ++ String.ofList back := by
    rw [← String.ofList_append, ← h, String.ofList_toList]
  rw [htext, ← utf8ByteSize_ofList, byteBefore?_append,
    Grammar.getLast?_encode_any_isCodeOf hp, String.toList_ofList]

/-- The first byte behind a place tells whether a character of words stands there. -/
theorem Text.byteAt?_any {text : String} {front back : List Char}
    (h : text.toList = front ++ back) :
    (byteAt? text (byteLength front)).any isWordByte = back.head?.any isWord := by
  have htext : text = String.ofList front ++ String.ofList back := by
    rw [← String.ofList_append, ← h, String.ofList_toList]
  rw [htext, ← utf8ByteSize_ofList, byteAt?_append, Grammar.head?_encode_any,
    String.toList_ofList]

/-! ## Matches that follow each other -/

/-- Of two matches that follow each other, each has been found at its place. -/
theorem firstRule?_of_infix {text : String} {m after : Match}
    (h : [m, after] <:+: allMatches text) :
    ∃ front back, text.toList = front ++ (m.lexeme ++ (after.lexeme ++ back)) ∧
      Text.byteLength (front ++ m.lexeme) = m.stop ∧ after.start = m.stop ∧
      firstRule? front.getLast? (m.lexeme ++ (after.lexeme ++ back)) =
        some (m.rule, m.lexeme.length) := by
  -- matches that follow each other touch
  have htouch : after.start = m.stop := by
    simpa using List.IsChain.infix (tiling_allMatches text).next h
  obtain ⟨front, rest, htext, hstart, hfirst⟩ :=
    firstRule?_of_mem_allMatches (h.subset List.mem_cons_self)
  obtain ⟨front', back, htext', hstart', -⟩ :=
    firstRule?_of_mem_allMatches (h.subset (List.mem_cons_of_mem m List.mem_cons_self))
  have hstop : Text.byteLength (front ++ m.lexeme) = m.stop := by
    rw [Text.byteLength_append, hstart, Match.stop]
  -- both splits of the text are at the byte where the first match ends
  have hsplit : (front ++ m.lexeme) ++ rest = front' ++ (after.lexeme ++ back) := by
    rw [List.append_assoc, ← htext, htext']
  obtain ⟨-, rfl⟩ := Text.append_inj_of_byteLength hsplit (by omega)
  exact ⟨front, back, htext, hstop, htouch, hfirst⟩

/-- Every match but the first one follows another. -/
theorem exists_infix_of_mem {text : String} {m : Match} (hm : m ∈ allMatches text)
    (hstart : 0 < m.start) : ∃ previous, [previous, m] <:+: allMatches text := by
  obtain ⟨earlier, later, hall⟩ := List.append_of_mem hm
  cases List.eq_nil_or_concat earlier with
  -- a match with nothing before it starts the text
  | inl hnil =>
    have hfirst := (tiling_allMatches text).first m (by simp [hall, hnil])
    omega
  | inr hconcat =>
    obtain ⟨init, previous, rfl⟩ := hconcat
    exact ⟨previous, init, later, by simp [hall]⟩

/-- Where a match starts, it is what is found there. -/
theorem eq_of_firstRule? {text : String} {m : Match} {front lexeme rest : List Char} {rule : Rule}
    (hm : m ∈ allMatches text) (htext : text.toList = front ++ (lexeme ++ rest))
    (hstart : m.start = Text.byteLength front)
    (hfirst : firstRule? front.getLast? (lexeme ++ rest) = some (rule, lexeme.length)) :
    m = ⟨rule, Text.byteLength front, lexeme⟩ := by
  obtain ⟨front', back, htext', hstart', hfirst'⟩ := firstRule?_of_mem_allMatches hm
  obtain ⟨rfl, hrest⟩ :=
    Text.append_inj_of_byteLength (htext'.symm.trans htext) (hstart'.trans hstart)
  -- what is found at one place behind one text is one thing
  rw [hrest, hfirst, Option.some.injEq, Prod.mk.injEq] at hfirst'
  obtain ⟨hrule, hlength⟩ := hfirst'
  obtain ⟨hlexeme, -⟩ := List.append_inj hrest hlength.symm
  obtain ⟨mrule, mstart, mlexeme⟩ := m
  simp_all

/-! ## Reserved words and identifiers -/

/-- The bytes around a word token: none of a word behind it, and before it only if the token is
not reserved. -/
theorem keyword_iff_of_mem_tokens {text : String} {token : Token}
    (h : token ∈ (scan text).tokens) (hkind : token.kind = .keyword ∨ token.kind = .identifier) :
    (Text.byteAt? text token.span.stop).any isWordByte = false ∧
      (token.kind = .keyword ↔
        token.value ∈ keywords ∧
          (Text.byteBefore? text token.span.start).any isWordByte = false) := by
  obtain ⟨m, hm, hsome⟩ := List.mem_filterMap.1 h
  obtain ⟨kind, haction, rfl⟩ := Match.token?_eq_some_iff.1 hsome
  obtain ⟨front, back, htext, hstart, hfirst⟩ := firstRule?_of_mem_allMatches hm
  -- rules and kinds of words correspond, since no two rules do the same
  have hkeyword : kind = .keyword ↔ m.rule = .keyword := by
    refine ⟨fun heq => Rule.action_injective (haction.trans (by rw [heq]; rfl)), fun heq => ?_⟩
    rw [heq] at haction
    exact (Grammar.Action.emit.inj haction).symm
  have hrule : m.rule = .keyword ∨ m.rule = .identifier := by
    refine hkind.imp hkeyword.1 fun heq => Rule.action_injective (haction.trans ?_)
    rw [show kind = .identifier from heq]
    rfl
  obtain ⟨hiff, hstops⟩ := Grammar.keyword_iff_of_firstRule? hfirst hrule
  -- the characters on both sides, seen in the bytes there
  have hbefore := Text.byteBefore?_any (fun _ => Grammar.toNat_lt_of_isWord) htext
  have hafter := Text.byteAt?_any (htext.trans (List.append_assoc _ _ _).symm)
  rw [hstart] at hbefore
  rw [Text.byteLength_append, hstart, Grammar.stops_iff.1 hstops] at hafter
  refine ⟨hafter, hkeyword.trans (hiff.trans ?_)⟩
  rw [Grammar.ofList_mem_keywords, ← hbefore]
  rfl

/-- `m` is the match of `text` that `token` follows without a gap. -/
def Match.RightBefore (m : Match) (text : String) (token : Token) : Prop :=
  ∃ after, [m, after] <:+: allMatches text ∧ after.token? = some token ∧
    m.stop = token.span.start

theorem isWordByte_of_isDigit {b : UInt8} (h : isCodeOf Char.isDigit b = true) :
    isWordByte b = true := by
  rw [isCodeOf, Bool.and_eq_true] at h
  rw [isWordByte, h.1, Grammar.isWord_of_isDigit h.2]
  rfl

/-- A reserved word that is found as an identifier touches a number before it. -/
theorem exists_rightBefore_of_identifier {text : String} {token : Token}
    (h : token ∈ (scan text).tokens) (hreserved : token.value ∈ keywords)
    (hkind : token.kind = .identifier) :
    ∃ m : Match, m.RightBefore text token ∧ m.rule = .constant ∧
      (Text.byteBefore? text m.stop).any (isCodeOf Char.isDigit) = true := by
  -- otherwise it would be a keyword
  have hbefore : (Text.byteBefore? text token.span.start).any isWordByte = true := by
    by_contra hno
    have := (keyword_iff_of_mem_tokens h (.inr hkind)).2.2 ⟨hreserved, Bool.eq_false_iff.2 hno⟩
    rw [hkind] at this
    exact nomatch this
  obtain ⟨m, hm, hsome⟩ := List.mem_filterMap.1 h
  obtain ⟨kind, -, rfl⟩ := Match.token?_eq_some_iff.1 hsome
  -- nothing stands before the first byte, so the token is not at the start
  have hpos : 0 < m.start := by
    refine Nat.pos_of_ne_zero fun hzero => ?_
    simp [hzero, Text.byteBefore?] at hbefore
  obtain ⟨previous, hpair⟩ := exists_infix_of_mem hm hpos
  obtain ⟨front, back, htext, hstop, htouch, hfirst⟩ := firstRule?_of_infix hpair
  have hne : previous.lexeme ≠ [] := List.length_pos_iff.1 (Grammar.firstRule?_pos hfirst)
  have hsplit : text.toList = (front ++ previous.lexeme) ++ (m.lexeme ++ back) := by
    rw [htext, List.append_assoc]
  -- the number ends where the word starts
  have hlast : ∀ p : Char → Bool, (∀ c, p c = true → c.toNat < 128) →
      (Text.byteBefore? text m.start).any (isCodeOf p) = previous.lexeme.getLast?.any p := by
    intro p hp
    rw [htouch, ← hstop, Text.byteBefore?_any hp hsplit, List.getLast?_append_of_ne_nil _ hne]
  -- the reserved word starts with a character of words
  have hhead : (m.lexeme ++ back).head?.any isWord = true := by
    have hmem := Grammar.ofList_mem_keywords.1 hreserved
    obtain ⟨c, cs, hcs⟩ := List.exists_cons_of_ne_nil (lexeme_ne_nil_of_mem_allMatches hm)
    rw [hcs] at hmem ⊢
    exact Grammar.Lexeme.isWord_of_mem_keywordSpellings _ hmem c List.mem_cons_self
  obtain ⟨hrule, hdigit⟩ := Grammar.eq_constant_of_isWord hfirst
    ((hlast isWord fun _ => Grammar.toNat_lt_of_isWord).symm.trans hbefore) hhead
  refine ⟨previous, ⟨m, hpair, hsome, htouch.symm⟩, hrule, ?_⟩
  rw [← htouch, hlast]
  · exact hdigit
  · -- digits are ASCII, as characters of words are
    exact fun c hc => Grammar.toNat_lt_of_isWord (Grammar.isWord_of_isDigit hc)

/-- A reserved word is found as an identifier exactly where it touches a number that ends in a
digit. -/
theorem identifier_iff_of_reserved {text : String} {token : Token}
    (h : token ∈ (scan text).tokens) (hreserved : token.value ∈ keywords) :
    token.kind = .identifier ↔
      ∃ m : Match, m.RightBefore text token ∧ m.rule = .constant ∧
        (Text.byteBefore? text m.stop).any (isCodeOf Char.isDigit) = true := by
  refine ⟨exists_rightBefore_of_identifier h hreserved, fun hmatch => ?_⟩
  obtain ⟨m, ⟨after, hpair, hsome, htouch⟩, -, hdigit⟩ := hmatch
  obtain ⟨kind, haction, rfl⟩ := Match.token?_eq_some_iff.1 hsome
  obtain ⟨front, back, -, -, hfirst⟩ :=
    firstRule?_of_mem_allMatches (hpair.subset (List.mem_cons_of_mem m List.mem_cons_self))
  have hemits : after.rule.action.emits = true := by
    rw [haction]
    rfl
  rcases Grammar.eq_keyword_or_identifier hfirst (Grammar.ofList_mem_keywords.1 hreserved) hemits
    with hrule | hrule
  · -- a keyword has no byte of a word before it
    have hkind : kind = .keyword := by
      rw [hrule] at haction
      exact (Grammar.Action.emit.inj haction).symm
    have hbefore := ((keyword_iff_of_mem_tokens h (.inl hkind)).2.1 hkind).2
    obtain ⟨b, hb, hcode⟩ := (Option.any_eq_true _ _).1 hdigit
    rw [← htouch, hb, Option.any_some, isWordByte_of_isDigit hcode] at hbefore
    exact nomatch hbefore
  · rw [hrule] at haction
    exact (Grammar.Action.emit.inj haction).symm

/-- At a place where a match starts, a reserved word is a keyword exactly if no byte of a word
stands on either side of it. -/
theorem keyword_mem_tokens_iff {text front word back : String} (htext : text = front ++ word ++ back)
    (hword : word ∈ keywords) (hmatch : ∃ m ∈ allMatches text, m.start = front.utf8ByteSize) :
    ⟨.keyword, word, ⟨front.utf8ByteSize, (front ++ word).utf8ByteSize⟩⟩ ∈ (scan text).tokens ↔
      (Text.byteBefore? text front.utf8ByteSize).any isWordByte = false ∧
        (Text.byteAt? text (front ++ word).utf8ByteSize).any isWordByte = false := by
  have hchars : text.toList = front.toList ++ (word.toList ++ back.toList) := by
    rw [htext, String.toList_append, String.toList_append, List.append_assoc]
  constructor
  · intro hmem
    obtain ⟨hafter, hiff⟩ := keyword_iff_of_mem_tokens hmem (.inl rfl)
    exact ⟨(hiff.1 rfl).2, hafter⟩
  · intro hbytes
    obtain ⟨hbefore, hafter⟩ := hbytes
    -- the match that starts there is the keyword, since no earlier rule has a claim to it
    obtain ⟨m, hm, hstart⟩ := hmatch
    have hleft := Text.byteBefore?_any (fun _ => Grammar.toNat_lt_of_isWord) hchars
    have hright := Text.byteAt?_any (hchars.trans (List.append_assoc _ _ _).symm)
    rw [Text.byteLength_toList] at hleft
    rw [← String.toList_append, Text.byteLength_toList, hafter] at hright
    have hfits : Rule.keyword.Fits front.toList.getLast? word.toList back.toList :=
      ⟨hleft.symm.trans hbefore, List.mem_map_of_mem hword, Grammar.stops_iff.2 hright.symm⟩
    have hm' := eq_of_firstRule? hm hchars (by rw [hstart, Text.byteLength_toList])
      (Grammar.firstRule?_append_iff.2 ⟨hfits, trivial⟩)
    refine List.mem_filterMap.2 ⟨m, hm, Match.token?_eq_some_iff.2 ⟨.keyword, ?_, ?_⟩⟩
    · rw [hm']
      rfl
    · simp [hm', Match.stop, Text.byteLength_toList]

/-- Which words are reserved.  No byte of a word follows a keyword or an identifier, and a keyword
is a reserved word with none before it.  A reserved word is an identifier exactly where it touches
a number that ends in a digit.  The bytes of characters beyond ASCII are never bytes of words, so
that such characters are boundaries on both sides. -/
theorem keyword_or_identifier (text : String) :
    (∀ token ∈ (scan text).tokens, token.kind = .keyword ∨ token.kind = .identifier →
      (Text.byteAt? text token.span.stop).any isWordByte = false ∧
        (token.kind = .keyword ↔
          token.value ∈ keywords ∧
            (Text.byteBefore? text token.span.start).any isWordByte = false)) ∧
    (∀ token ∈ (scan text).tokens, token.value ∈ keywords →
      (token.kind = .identifier ↔
        ∃ m : Match, m.RightBefore text token ∧ m.rule = .constant ∧
          (Text.byteBefore? text m.stop).any (isCodeOf Char.isDigit) = true)) ∧
    (∀ c : Char, 128 ≤ c.toNat → ∀ b ∈ String.utf8EncodeChar c, isWordByte b = false) ∧
    ∀ front word back, text = front ++ word ++ back → word ∈ keywords →
      (∃ m ∈ allMatches text, m.start = front.utf8ByteSize) →
      (⟨.keyword, word, ⟨front.utf8ByteSize, (front ++ word).utf8ByteSize⟩⟩ ∈ (scan text).tokens ↔
        (Text.byteBefore? text front.utf8ByteSize).any isWordByte = false ∧
          (Text.byteAt? text (front ++ word).utf8ByteSize).any isWordByte = false) := by
  refine ⟨fun token => keyword_iff_of_mem_tokens, fun token => identifier_iff_of_reserved, ?_,
    fun front word back => keyword_mem_tokens_iff⟩
  intro c hc b hb
  have hcode := Grammar.isCodeOf_of_mem_utf8EncodeChar (fun _ => Grammar.toNat_lt_of_isWord) b hb
  -- an ASCII code would be needed
  refine hcode.trans (Bool.eq_false_iff.2 fun hword => ?_)
  have := Grammar.toNat_lt_of_isWord hword
  omega

/-- Behind a digit `if` is an identifier; in front of a letter beyond ASCII `int` is a keyword, and
so it is behind one. -/
theorem keyword_or_identifier_number_accent :
    (⟨.identifier, "if", ⟨1, 3⟩⟩ : Token) ∈ (scan "1if éinté").tokens ∧ "if" ∈ keywords ∧
    (∃ m : Match, m.RightBefore "1if éinté" ⟨.identifier, "if", ⟨1, 3⟩⟩ ∧ m.rule = .constant ∧
      (Text.byteBefore? "1if éinté" m.stop).any (isCodeOf Char.isDigit) = true) ∧
    (⟨.keyword, "int", ⟨6, 9⟩⟩ : Token) ∈ (scan "1if éinté").tokens ∧
    (Text.byteAt? "1if éinté" 9).any isWordByte = false ∧
    (Text.byteBefore? "1if éinté" 6).any isWordByte = false := by
  have hif : (⟨.identifier, "if", ⟨1, 3⟩⟩ : Token) ∈ (scan "1if éinté").tokens := by
    decide +kernel
  have hint : (⟨.keyword, "int", ⟨6, 9⟩⟩ : Token) ∈ (scan "1if éinté").tokens := by
    decide +kernel
  obtain ⟨hwords, hreserved, -, -⟩ := keyword_or_identifier "1if éinté"
  obtain ⟨hafter, hiff⟩ := hwords _ hint (.inl rfl)
  exact ⟨hif, by decide, (hreserved _ hif (by decide)).1 rfl, hint, hafter, (hiff.1 rfl).2⟩

end TokenCensus

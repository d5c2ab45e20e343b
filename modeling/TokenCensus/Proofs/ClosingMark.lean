import Mathlib.Algebra.Ring.Parity
import Mathlib.Data.List.DropRight
import Mathlib.Order.Bounds.Basic
import TokenCensus.Proofs.InPlace

/-!
# Comments and literals end at their first closing mark

A block comment ends behind the first `*/` that follows its opening mark, and a comment up to the
end of its line ends before the first newline.  A literal ends behind the first quote that is not
escaped.  What has no such mark behind it goes on to the end of the text.

The scanner reads a literal from the left and lets every backslash take the next character.  Read
from a quote to the left, the same is said by a parity: the quote is escaped exactly if the
backslashes right before it are odd in number.  The two views meet in `LiteralBody.even_backslashes`
and `exists_literalBody`.

## Key results

- `Text.isLeast_placesFrom`: the first place of a mark
- `LiteralBody.even_backslashes`, `exists_literalBody`: escapes from the left and from the right
- `comment_ends_at_first_mark`: where comments end
- `literal_ends_at_first_quote`: where literals end
-/

namespace TokenCensus

/-! ## Escapes from the left and from the right -/

namespace Grammar.Lexeme

/-- The number of backslashes at the end of `cs`. -/
def backslashes (cs : List Char) : Nat := (cs.rtakeWhile (· = '\\')).length

theorem backslashes_le_length (cs : List Char) : backslashes cs ≤ cs.length :=
  (List.rtakeWhile_suffix _ cs).length_le

/-- The run at the end goes on to the left only if there is nothing else. -/
theorem backslashes_cons (c : Char) (cs : List Char) :
    backslashes (c :: cs) =
      if c = '\\' ∧ backslashes cs = cs.length then cs.length + 1 else backslashes cs := by
  unfold backslashes List.rtakeWhile
  rw [List.reverse_cons, List.takeWhile_append, List.length_reverse, List.length_reverse,
    List.length_reverse]
  -- seen from the right, the run has reached `c` or it has ended before
  by_cases hall : (cs.reverse.takeWhile (· = '\\')).length = cs.length
  · by_cases hc : c = '\\' <;> simp [hall, hc]
  · simp [hall]

theorem backslashes_cons_of_ne {c : Char} (hc : c ≠ '\\') (cs : List Char) :
    backslashes (c :: cs) = backslashes cs := by
  rw [backslashes_cons, if_neg fun h => hc h.1]

/-- A backslash and what it takes do not change whether the run at the end is even. -/
theorem even_backslashes_escaped (c : Char) (cs : List Char) :
    Even (backslashes ('\\' :: c :: cs)) ↔ Even (backslashes cs) := by
  by_cases hall : c = '\\' ∧ backslashes cs = cs.length
  · -- all of the text is backslashes, which become two more
    rw [backslashes_cons, backslashes_cons, if_pos hall, if_pos ⟨rfl, rfl⟩, hall.2, List.length_cons,
      Nat.even_add_one, Nat.even_add_one, not_not]
  · -- the run ends inside of `cs`, so it is the same for both
    have hle := backslashes_le_length cs
    rw [backslashes_cons, backslashes_cons, if_neg hall, if_neg]
    intro hrun
    have := hrun.2
    rw [List.length_cons] at this
    omega

theorem backslashes_concat (cs : List Char) : backslashes (cs ++ ['\\']) = backslashes cs + 1 := by
  rw [backslashes, List.rtakeWhile_concat_pos _ _ _ (by simp), List.length_append, backslashes,
    List.length_singleton]

theorem LiteralBody.append {front back : List Char} (h : LiteralBody front)
    (hback : LiteralBody back) : LiteralBody (front ++ back) := by
  induction h with
  | nil => exact hback
  | plain hquote hslash _ ih => exact .plain hquote hslash ih
  | escaped _ ih => exact .escaped ih

/-- Between the quotes of a literal, backslashes at the end take each other. -/
theorem LiteralBody.even_backslashes {body : List Char} (h : LiteralBody body) :
    Even (backslashes body) := by
  induction h with
  | nil => decide
  -- a plain character is no backslash, so it leaves the run as it is
  | plain _ hslash _ ih => rwa [backslashes_cons_of_ne hslash]
  | escaped _ ih => rwa [even_backslashes_escaped]

/-- Read from an opening quote on, a text closes the literal, or a quote behind the text would, or a
backslash at its end would take that quote. -/
theorem literalBody_cases (cs : List Char) :
    (∃ body back, cs = body ++ '"' :: back ∧ LiteralBody body) ∨
      LiteralBody cs ∨ ∃ body, cs = body ++ ['\\'] ∧ LiteralBody body := by
  -- the cases are those of the scanner
  fun_induction closeLiteral? 0 cs with
  -- nothing is left, and the literal is still open
  | case1 => exact .inr (.inl .nil)
  -- the quote that closes it
  | case2 _ tail => exact .inl ⟨[], tail, rfl, .nil⟩
  -- a backslash with the character that it takes goes in front of what is found in the rest
  | case3 _ c cs ih =>
    rcases ih with ⟨body, back, rfl, hbody⟩ | hbody | ⟨body, rfl, hbody⟩
    · exact .inl ⟨'\\' :: c :: body, back, rfl, .escaped hbody⟩
    · exact .inr (.inl (.escaped hbody))
    · exact .inr (.inr ⟨'\\' :: c :: body, rfl, .escaped hbody⟩)
  | case4 _ c cs hquote hslash ih =>
    by_cases hc : c = '\\'
    · -- a backslash with nothing to take
      cases cs with
      | nil => exact .inr (.inr ⟨[], by rw [hc]; rfl, .nil⟩)
      | cons d cs => exact absurd rfl (hslash d cs hc)
    · rcases ih with ⟨body, back, rfl, hbody⟩ | hbody | ⟨body, rfl, hbody⟩
      · exact .inl ⟨c :: body, back, rfl, .plain hquote hc hbody⟩
      · exact .inr (.inl (.plain hquote hc hbody))
      · exact .inr (.inr ⟨c :: body, rfl, .plain hquote hc hbody⟩)

/-- A literal closes once. -/
theorem LiteralBody.unique {body back body' back' : List Char} (h : LiteralBody body)
    (h' : LiteralBody body') (happ : body ++ '"' :: back = body' ++ '"' :: back') :
    body = body' := by
  -- the scanner would close both after as many characters
  have hclose : closeLiteral? 0 (body' ++ '"' :: back') = some (0 + body.length + 1) :=
    closeLiteral?_eq_some_iff.2 ⟨body, back, happ, rfl, h⟩
  have hclose' : closeLiteral? 0 (body' ++ '"' :: back') = some (0 + body'.length + 1) :=
    closeLiteral?_eq_some_iff.2 ⟨body', back', rfl, rfl, h'⟩
  rw [hclose, Option.some.injEq] at hclose'
  exact (List.append_inj happ (by omega)).1

/-- What stands behind an opening quote, with no quote that closes the literal. -/
def OpenBody (body : List Char) : Prop :=
  ∀ closed back, body = closed ++ '"' :: back → ¬ LiteralBody closed

/-- Behind an even number of backslashes one more quote is enough. -/
theorem OpenBody.literalBody {body : List Char} (h : OpenBody body)
    (heven : Even (backslashes body)) : LiteralBody body := by
  rcases literalBody_cases body with ⟨closed, back, happ, hclosed⟩ | hbody | ⟨front, rfl, hfront⟩
  · exact absurd hclosed (h closed back happ)
  · exact hbody
  · -- then the backslashes would have been odd in number, those of `front` being even
    rw [backslashes_concat, Nat.even_add_one] at heven
    exact absurd hfront.even_backslashes heven

/-- A quote behind an even number of backslashes closes a literal, if no quote before it does. -/
theorem exists_literalBody {cs : List Char} (h : Even (backslashes cs)) (back : List Char) :
    ∃ body between, cs ++ '"' :: back = body ++ '"' :: between ∧ body <+: cs ∧ LiteralBody body := by
  by_cases hopen : OpenBody cs
  · exact ⟨cs, back, rfl, List.prefix_refl cs, hopen.literalBody h⟩
  · simp only [OpenBody, not_forall, not_not] at hopen
    -- a quote before it closes the literal
    obtain ⟨body, rest, rfl, hbody⟩ := hopen
    exact ⟨body, rest ++ '"' :: back, List.append_assoc body ('"' :: rest) _,
      List.prefix_append body _, hbody⟩

/-- Behind an odd number of backslashes one more quote closes nothing: the last one takes it. -/
theorem OpenBody.concat_quote {body : List Char} (h : OpenBody body)
    (hodd : Odd (backslashes body)) : OpenBody (body ++ ['"']) := by
  rcases literalBody_cases body with ⟨closed, back, happ, hclosed⟩ | hbody | ⟨front, rfl, hfront⟩
  · exact absurd hclosed (h closed back happ)
  · exact absurd hbody.even_backslashes (Nat.not_even_iff_odd.2 hodd)
  · intro closed back happ hclosed
    -- with yet another quote the literal would close twice
    have hwhole : LiteralBody (front ++ ['\\'] ++ ['"']) := by
      rw [List.append_assoc]
      exact hfront.append (.escaped .nil)
    have htwice : front ++ ['\\'] ++ ['"'] ++ '"' :: [] = closed ++ '"' :: (back ++ ['"']) := by
      rw [happ, List.append_assoc, List.cons_append]
    have hlength := congrArg List.length happ
    rw [hwhole.unique hclosed htwice, List.length_append, List.length_cons] at hlength
    omega

end Grammar.Lexeme

open Grammar (Rule Stops)
open Grammar.Lexeme (LiteralBody OpenBody backslashes exists_literalBody closeComment?_eq_some_iff
  closeComment?_eq_none_iff closeLiteral?_eq_none_iff)

/-! ## Places of marks -/

namespace Text

/-- `mark` stands at the byte `offset` of `text`. -/
def StandsAt (text mark : String) (offset : Nat) : Prop :=
  ∃ front back, text = front ++ mark ++ back ∧ front.utf8ByteSize = offset

/-- The bytes of `text` from `position` on at which `mark` stands. -/
def placesFrom (text mark : String) (position : Nat) : Set Nat :=
  {offset | position ≤ offset ∧ StandsAt text mark offset}

theorem standsAt_iff {text mark : String} {offset : Nat} :
    StandsAt text mark offset ↔
      ∃ front back, text.toList = front ++ (mark.toList ++ back) ∧ byteLength front = offset := by
  constructor
  · -- from strings to lists of characters, and back
    intro h
    obtain ⟨front, back, rfl, rfl⟩ := h
    exact ⟨front.toList, back.toList, by simp, byteLength_toList front⟩
  · intro h
    obtain ⟨front, back, htext, rfl⟩ := h
    refine ⟨String.ofList front, String.ofList back, ?_, utf8ByteSize_ofList front⟩
    rw [← String.toList_inj, htext]
    simp

/-- The places from the end of `front` on are those in what follows `front`. -/
theorem mem_placesFrom_iff {text mark : String} {front rest : List Char} {offset : Nat}
    (h : text.toList = front ++ rest) :
    offset ∈ placesFrom text mark (byteLength front) ↔
      ∃ body back, rest = body ++ (mark.toList ++ back) ∧ byteLength (front ++ body) = offset := by
  constructor
  · intro hmem
    -- the place lies behind `front`, so its front goes on from there
    obtain ⟨hle, hstands⟩ := hmem
    obtain ⟨front', back, htext, rfl⟩ := standsAt_iff.1 hstands
    have happ : front ++ rest = front' ++ (mark.toList ++ back) := h.symm.trans htext
    obtain ⟨body, rfl⟩ := isPrefix_of_byteLength_le ⟨rest, happ⟩ hle
    rw [List.append_assoc] at happ
    exact ⟨body, back, List.append_cancel_left happ, rfl⟩
  · intro hsplit
    obtain ⟨body, back, rfl, rfl⟩ := hsplit
    refine ⟨?_, standsAt_iff.2 ⟨front ++ body, back, by rw [h, List.append_assoc], rfl⟩⟩
    rw [byteLength_append]
    omega

/-- Where a mark does not begin earlier, it stands first. -/
theorem isPrefix_of_not_infix {mark body back body' back' : List Char}
    (hno : ¬ mark <:+: body ++ mark.dropLast)
    (h : body ++ (mark ++ back) = body' ++ (mark ++ back')) : body <+: body' := by
  have hbody' : body' <+: body ++ (mark ++ back) := ⟨_, h.symm⟩
  -- of two fronts of one text, one begins the other
  cases List.prefix_or_prefix_of_prefix (List.prefix_append body _) hbody' with
  | inl hpre => exact hpre
  | inr hpre =>
    by_contra hnot
    have hshort : body'.length < body.length := by
      refine Nat.lt_of_le_of_ne hpre.length_le fun heq => hnot ?_
      have hsame := hpre.eq_of_length heq
      exact hsame ▸ List.prefix_refl body'
    -- then the mark lies within the first one, its last character left out
    have hwhole : body' ++ mark <+: body ++ (mark ++ back) := ⟨back', by rw [h, List.append_assoc]⟩
    have hfirst : body ++ mark.dropLast <+: body ++ (mark ++ back) :=
      List.prefix_append_right_inj body |>.2 ((List.dropLast_prefix mark).trans
        (List.prefix_append mark back))
    have hle : (body' ++ mark).length ≤ (body ++ mark.dropLast).length := by
      rw [List.length_append, List.length_append, List.length_dropLast]
      omega
    have hin := List.prefix_of_prefix_length_le hwhole hfirst hle
    exact hno ((List.suffix_append body' mark).isInfix.trans hin.isInfix)

/-- The first place of a mark from the end of `front` on. -/
theorem isLeast_placesFrom {text mark : String} {front body back : List Char}
    (h : text.toList = front ++ (body ++ (mark.toList ++ back)))
    (hno : ¬ mark.toList <:+: body ++ mark.toList.dropLast) :
    IsLeast (placesFrom text mark (byteLength front)) (byteLength (front ++ body)) := by
  -- any other place has a front that begins with `front ++ body`
  refine ⟨(mem_placesFrom_iff h).2 ⟨body, back, rfl, rfl⟩, fun offset hoffset => ?_⟩
  obtain ⟨body', back', hrest, rfl⟩ := (mem_placesFrom_iff h).1 hoffset
  obtain ⟨more, rfl⟩ := isPrefix_of_not_infix hno hrest
  rw [← List.append_assoc, byteLength_append (front ++ body)]
  omega

/-- A mark that is nowhere in the rest of the text has no place there. -/
theorem placesFrom_eq_empty_iff {text mark : String} {front rest : List Char}
    (h : text.toList = front ++ rest) :
    placesFrom text mark (byteLength front) = ∅ ↔ ¬ mark.toList <:+: rest := by
  rw [Set.eq_empty_iff_forall_notMem]
  constructor
  · intro hnone hin
    obtain ⟨body, back, hrest⟩ := hin
    exact hnone _ ((mem_placesFrom_iff h).2 ⟨body, back, by rw [← hrest, List.append_assoc], rfl⟩)
  · intro hno offset hoffset
    obtain ⟨body, back, hrest, -⟩ := (mem_placesFrom_iff h).1 hoffset
    exact hno ⟨body, back, by rw [hrest, List.append_assoc]⟩

end Text

/-! ## Searches that end at a mark -/

/-- A search from the byte `position` of `text` finds a match there, by `rule` and up to `stop`. -/
def FindsAt (text : String) (position : Nat) (rule : Rule) (stop : Nat) : Prop :=
  ∃ m : Match, matchAt text position = .ok (some m) ∧ m.rule = rule ∧ m.start = position ∧
    m.stop = stop

theorem findsAt_of_fits {text : String} {front lexeme rest : List Char} {rule : Rule}
    (htext : text.toList = front ++ (lexeme ++ rest))
    (hfits : rule.Fits front.getLast? lexeme rest)
    (hfree : rule.Unclaimed front.getLast? lexeme rest) :
    FindsAt text (Text.byteLength front) rule (Text.byteLength (front ++ lexeme)) := by
  -- the lexeme starts where `front` ends, and the search goes by what comes before that
  have hmatch := matchAt_of_firstRule? (Grammar.firstRule?_append_iff.2 ⟨hfits, hfree⟩)
  rw [← htext, String.ofList_toList] at hmatch
  exact ⟨_, hmatch, rfl, rfl, (Text.byteLength_append front lexeme).symm⟩

/-- A search finds one match at most. -/
theorem FindsAt.unique {text : String} {position stop stop' : Nat} {rule rule' : Rule}
    (h : FindsAt text position rule stop) (h' : FindsAt text position rule' stop') :
    rule = rule' ∧ stop = stop' := by
  obtain ⟨m, hm, rfl, -, rfl⟩ := h
  obtain ⟨m', hm', rfl, -, rfl⟩ := h'
  rw [hm, Except.ok.injEq, Option.some.injEq] at hm'
  subst hm'
  exact ⟨rfl, rfl⟩

/-- The match at `position` is found by the rule `closed` and ends `width` bytes behind the first
of `marks`.  If there is none, it is found by `unclosed` and takes all that is left of the text. -/
def EndsAtFirst (text : String) (position : Nat) (marks : Set Nat) (width : Nat)
    (closed unclosed : Rule) : Prop :=
  (marks.Nonempty → ∃ mark, IsLeast marks mark ∧ FindsAt text position closed (mark + width)) ∧
  (marks = ∅ → FindsAt text position unclosed text.utf8ByteSize)

namespace EndsAtFirst

variable {text : String} {position width : Nat} {marks : Set Nat} {closed unclosed : Rule}

theorem of_isLeast {mark : Nat} (hleast : IsLeast marks mark)
    (h : FindsAt text position closed (mark + width)) :
    EndsAtFirst text position marks width closed unclosed := by
  refine ⟨fun _ => ⟨mark, hleast, h⟩, fun hnone => ?_⟩
  exact absurd hnone (Set.nonempty_iff_ne_empty.1 ⟨mark, hleast.1⟩)

theorem of_eq_empty (hnone : marks = ∅) (h : FindsAt text position unclosed text.utf8ByteSize) :
    EndsAtFirst text position marks width closed unclosed :=
  ⟨fun hsome => absurd hnone (Set.nonempty_iff_ne_empty.1 hsome), fun _ => h⟩

/-- No third rule finds the match. -/
theorem rule_eq {rule : Rule} {stop : Nat}
    (h : EndsAtFirst text position marks width closed unclosed)
    (hfinds : FindsAt text position rule stop) : rule = closed ∨ rule = unclosed := by
  rcases Set.eq_empty_or_nonempty marks with hnone | hsome
  · -- the search at `position` has one answer, and `EndsAtFirst` names it
    exact .inr (hfinds.unique (h.2 hnone)).1
  · obtain ⟨mark, -, hclosed⟩ := h.1 hsome
    exact .inl (hfinds.unique hclosed).1

end EndsAtFirst

/-! ## Comments -/

section Comments

variable {text : String} {front cs : List Char}

/-- Where there is a closing mark, there is a first one. -/
theorem exists_first_closingMark (h : ['*', '/'] <:+: cs) :
    ∃ body back, cs = body ++ (['*', '/'] ++ back) ∧ ¬ ['*', '/'] <:+: body ++ ['*'] := by
  cases hclose : Grammar.Lexeme.closeComment? 0 cs with
  | none => exact absurd h (closeComment?_eq_none_iff.1 hclose)
  | some n =>
    obtain ⟨body, back, rfl, -, hfirst⟩ := closeComment?_eq_some_iff.1 hclose
    exact ⟨body, back, rfl, hfirst⟩

/-- A block comment ends behind the first closing mark. -/
theorem blockComment_endsAtFirst (h : text.toList = front ++ (['/', '*'] ++ cs)) :
    EndsAtFirst text (Text.byteLength front)
      (Text.placesFrom text "*/" (Text.byteLength front + 2)) 2 .comment .unterminatedComment := by
  -- closing marks are looked for behind the opening one
  have hopened : text.toList = (front ++ ['/', '*']) ++ cs := by rw [h, List.append_assoc]
  have hwidth : Text.byteLength (front ++ ['/', '*']) = Text.byteLength front + 2 :=
    Text.byteLength_append front ['/', '*']
  rw [← hwidth]
  by_cases hclosed : ['*', '/'] <:+: cs
  · -- closed: up to the first mark the comment rule fits, and it is the first of the rules
    obtain ⟨body, back, rfl, hfirst⟩ := exists_first_closingMark hclosed
    have hfits : Rule.comment.Fits front.getLast? (['/', '*'] ++ (body ++ ['*', '/'])) back :=
      .inr ⟨body, rfl, hfirst⟩
    have hfinds := findsAt_of_fits (by rw [h]; simp) hfits trivial
    rw [← List.append_assoc, ← List.append_assoc, Text.byteLength_append _ ['*', '/']] at hfinds
    exact .of_isLeast (Text.isLeast_placesFrom hopened hfirst) hfinds
  · -- not closed: no comment fits, so the rule for what lacks its end takes all
    have hfits : Rule.unterminatedComment.Fits front.getLast? (['/', '*'] ++ cs) [] :=
      ⟨⟨cs, rfl⟩, rfl⟩
    have hfree : Rule.unterminatedComment.Unclaimed front.getLast? (['/', '*'] ++ cs) [] := by
      intro body hbody
      obtain rfl := List.append_cancel_left hbody
      exact hclosed
    have hfinds := findsAt_of_fits (by rw [h, List.append_nil]) hfits hfree
    rw [← h, Text.byteLength_toList] at hfinds
    exact .of_eq_empty ((Text.placesFrom_eq_empty_iff hopened).2 hclosed) hfinds

/-- A comment up to the end of its line leaves the newline. -/
theorem lineComment_endsAtFirst (h : text.toList = front ++ (['/', '/'] ++ cs)) :
    EndsAtFirst text (Text.byteLength front)
      (Text.placesFrom text "\n" (Text.byteLength front)) 0 .comment .comment := by
  -- the comment goes on to the first newline, if there is one
  obtain ⟨body, rest, rfl, -, hbody, hstops⟩ := Grammar.exists_run_append (· ≠ '\n') cs
  have hline : '\n' ∉ body := fun hmem => by simpa using hbody _ hmem
  have hno : ¬ ['\n'] <:+: ['/', '/'] ++ body := by
    intro hin
    have hmem : '\n' ∈ ['/', '/'] ++ body := hin.subset List.mem_cons_self
    rw [List.mem_append] at hmem
    exact hmem.elim (by decide) hline
  have hsplit : text.toList = front ++ (['/', '/'] ++ body ++ rest) := by
    rw [h, List.append_assoc ['/', '/']]
  have hfits : Rule.comment.Fits front.getLast? (['/', '/'] ++ body) rest :=
    .inl ⟨⟨body, rfl, hline⟩, hstops⟩
  have hfinds := findsAt_of_fits hsplit hfits trivial
  -- no newline follows, so the comment ends with the text
  cases rest with
  | nil =>
    rw [List.append_nil] at hsplit
    rw [← hsplit, Text.byteLength_toList] at hfinds
    exact .of_eq_empty ((Text.placesFrom_eq_empty_iff hsplit).2 hno) hfinds
  | cons c back =>
    -- what ends the body is a newline
    obtain rfl : c = '\n' := by simpa using hstops
    exact .of_isLeast (Text.isLeast_placesFrom hsplit (by simpa using hno)) hfinds

end Comments

/-- Comments close where they should.  Behind `/*` the match ends with the first `*/`; without one
the comment is unterminated and goes on to the end of the text.  Behind `//` it ends before the
first newline, or with the text.  No operator is found at either mark. -/
theorem comment_ends_at_first_mark (text : String) (position : Nat) :
    (Text.StandsAt text "/*" position →
      EndsAtFirst text position (Text.placesFrom text "*/" (position + 2)) 2
        .comment .unterminatedComment) ∧
    (Text.StandsAt text "//" position →
      EndsAtFirst text position (Text.placesFrom text "\n" position) 0 .comment .comment) ∧
    (Text.StandsAt text "/*" position ∨ Text.StandsAt text "//" position →
      ∀ stop, ¬ FindsAt text position .operator stop) := by
  have hblock : Text.StandsAt text "/*" position →
      EndsAtFirst text position (Text.placesFrom text "*/" (position + 2)) 2
        .comment .unterminatedComment := by
    intro hopen
    obtain ⟨front, cs, htext, rfl⟩ := Text.standsAt_iff.1 hopen
    exact blockComment_endsAtFirst htext
  have hline : Text.StandsAt text "//" position →
      EndsAtFirst text position (Text.placesFrom text "\n" position) 0 .comment .comment := by
    intro hopen
    obtain ⟨front, cs, htext, rfl⟩ := Text.standsAt_iff.1 hopen
    exact lineComment_endsAtFirst htext
  refine ⟨hblock, hline, ?_⟩
  -- at either mark the match is found by one of the rules for comments
  intro hopen stop hoperator
  rcases hopen with hopen | hopen
  · have := (hblock hopen).rule_eq hoperator
    exact absurd this (by decide)
  · have := (hline hopen).rule_eq hoperator
    exact absurd this (by decide)

/-- Runs of stars before the closing mark are part of the comment, and `/*/` does not close
itself. -/
theorem comment_ends_at_first_mark_stars :
    FindsAt "a/*/ b **/ c" 1 .comment 10 ∧ FindsAt "/*/" 0 .unterminatedComment 3 ∧
    FindsAt "x // y" 2 .comment 6 ∧ ∀ stop, ¬ FindsAt "x // y" 2 .operator stop := by
  have hstars : Text.StandsAt "a/*/ b **/ c" "/*" 1 := ⟨"a", "/ b **/ c", by decide, by decide⟩
  have hopen : Text.StandsAt "/*/" "/*" 0 := ⟨"", "/", by decide, by decide⟩
  have hline : Text.StandsAt "x // y" "//" 2 := ⟨"x ", " y", by decide, by decide⟩
  have hclosed : "a/*/ b **/ c".toList =
      "a/*".toList ++ ("/ b *".toList ++ ("*/".toList ++ " c".toList)) := by decide
  have hmark : IsLeast (Text.placesFrom "a/*/ b **/ c" "*/" 3) 8 :=
    Text.isLeast_placesFrom hclosed (by decide)
  have hnone : Text.placesFrom "/*/" "*/" 2 = ∅ :=
    (Text.placesFrom_eq_empty_iff (by decide : _ = "/*".toList ++ "/".toList)).2 (by decide)
  have hnewline : Text.placesFrom "x // y" "\n" 2 = ∅ :=
    (Text.placesFrom_eq_empty_iff (by decide : _ = "x ".toList ++ "// y".toList)).2 (by decide)
  obtain ⟨mark, hleast, hfinds⟩ :=
    ((comment_ends_at_first_mark "a/*/ b **/ c" 1).1 hstars).1 ⟨8, hmark.1⟩
  obtain rfl := hleast.unique hmark
  have hunclosed := (comment_ends_at_first_mark "/*/" 0).1 hopen
  obtain ⟨-, hcomment, hoperator⟩ := comment_ends_at_first_mark "x // y" 2
  exact ⟨hfinds, hunclosed.2 hnone, (hcomment hline).2 hnewline, hoperator (.inr hline)⟩

/-! ## Literals -/

/-- The quotes that, as far as the backslashes right before them can tell, close the literal that the
quote at the byte `position` opens: between the two quotes those backslashes are even in number. -/
def closingQuotes (text : String) (position : Nat) : Set Nat :=
  {offset | ∃ front body back : String, text = front ++ "\"" ++ body ++ "\"" ++ back ∧
    front.utf8ByteSize = position ∧ (front ++ "\"" ++ body).utf8ByteSize = offset ∧
    Even (backslashes body.toList)}

theorem mem_closingQuotes_iff {text : String} {front rest : List Char} {offset : Nat}
    (h : text.toList = front ++ '"' :: rest) :
    offset ∈ closingQuotes text (Text.byteLength front) ↔
      ∃ body back, rest = body ++ '"' :: back ∧ Text.byteLength (front ++ '"' :: body) = offset ∧
        Even (backslashes body) := by
  constructor
  · intro hmem
    obtain ⟨front', body, back, htext, hfront, rfl, heven⟩ := hmem
    have hsplit : front ++ '"' :: rest =
        front'.toList ++ '"' :: (body.toList ++ '"' :: back.toList) := by
      rw [← h, htext]
      simp
    rw [← Text.byteLength_toList] at hfront
    -- both fronts are as long, so the same stands behind the quotes
    obtain ⟨rfl, hrest⟩ := Text.append_inj_of_byteLength hsplit hfront.symm
    refine ⟨body.toList, back.toList, (List.cons.inj hrest).2, ?_, heven⟩
    rw [← Text.byteLength_toList]
    simp
  · intro hsplit
    obtain ⟨body, back, rfl, rfl, heven⟩ := hsplit
    refine ⟨String.ofList front, String.ofList body, String.ofList back, ?_,
      Text.utf8ByteSize_ofList front, ?_, by rwa [String.toList_ofList]⟩
    · rw [← String.toList_inj, h]
      simp
    · rw [← Text.byteLength_toList]
      simp

section Literals

variable {text : String} {front body back : List Char}

/-- The quote that the scanner stops at is the first one that can close. -/
theorem isLeast_closingQuotes (h : text.toList = front ++ '"' :: (body ++ '"' :: back))
    (hbody : LiteralBody body) :
    IsLeast (closingQuotes text (Text.byteLength front))
      (Text.byteLength (front ++ '"' :: body)) := by
  refine ⟨(mem_closingQuotes_iff h).2 ⟨body, back, rfl, rfl, hbody.even_backslashes⟩, ?_⟩
  intro offset hoffset
  obtain ⟨body', back', hrest, rfl, heven⟩ := (mem_closingQuotes_iff h).1 hoffset
  -- up to the other quote, the literal has closed already
  obtain ⟨closed, between, happ, hprefix, hclosed⟩ := exists_literalBody heven back'
  obtain rfl := hbody.unique hclosed (hrest.trans happ)
  obtain ⟨tail, rfl⟩ := hprefix
  rw [← List.cons_append, ← List.append_assoc, Text.byteLength_append (front ++ '"' :: body)]
  omega

/-- A literal that does not close has no quote that could close it. -/
theorem closingQuotes_eq_empty (h : text.toList = front ++ '"' :: body) (hopen : OpenBody body) :
    closingQuotes text (Text.byteLength front) = ∅ := by
  rw [Set.eq_empty_iff_forall_notMem]
  intro offset hoffset
  -- by its backslashes the quote would close, so the body is closed there or before
  obtain ⟨body, back, rfl, -, heven⟩ := (mem_closingQuotes_iff h).1 hoffset
  obtain ⟨closed, between, happ, -, hclosed⟩ := exists_literalBody heven back
  exact hopen closed between happ hclosed

end Literals

/-- At a quote, the search finds a literal. -/
theorem literal_cases {text : String} {front cs : List Char} (h : text.toList = front ++ '"' :: cs) :
    (∃ body back, cs = body ++ '"' :: back ∧
        IsLeast (closingQuotes text (Text.byteLength front))
          (Text.byteLength (front ++ '"' :: body)) ∧
        FindsAt text (Text.byteLength front) .literal
          (Text.byteLength (front ++ '"' :: (body ++ ['"'])))) ∨
      closingQuotes text (Text.byteLength front) = ∅ ∧
        FindsAt text (Text.byteLength front) .unterminatedLiteral text.utf8ByteSize := by
  by_cases hclosed : ∃ body back, cs = body ++ '"' :: back ∧ LiteralBody body
  · -- some quote closes the literal, and it is the first one that can
    obtain ⟨body, back, rfl, hbody⟩ := hclosed
    refine .inl ⟨body, back, rfl, isLeast_closingQuotes h hbody, ?_⟩
    have hfits : Rule.literal.Fits front.getLast? ('"' :: (body ++ ['"'])) back :=
      ⟨body, rfl, hbody⟩
    exact findsAt_of_fits (by rw [h]; simp) hfits trivial
  · -- none does, and the rule for what lacks its end takes all
    have hopen : OpenBody cs := fun body back hcs hbody => hclosed ⟨body, back, hcs, hbody⟩
    have hfits : Rule.unterminatedLiteral.Fits front.getLast? ('"' :: cs) [] :=
      ⟨⟨cs, rfl⟩, rfl⟩
    have hfinds := findsAt_of_fits (by rw [h, List.append_nil]) hfits
      fun body back hbody => hopen body back (List.cons.inj hbody).2
    rw [← h, Text.byteLength_toList] at hfinds
    exact .inr ⟨closingQuotes_eq_empty h hopen, hfinds⟩

/-- Literals close at the first quote that is not escaped.  Without one the literal is unterminated
and goes on to the end of the text.  No other character ends a literal, escaped or not: what ends one
before the end of the text is a quote. -/
theorem literal_ends_at_first_quote (text : String) (position : Nat)
    (hquote : Text.StandsAt text "\"" position) :
    EndsAtFirst text position (closingQuotes text position) 1 .literal .unterminatedLiteral ∧
    ∀ rule stop, FindsAt text position rule stop →
      ∀ front c back, text = front ++ String.singleton c ++ back →
        (front ++ String.singleton c).utf8ByteSize = stop → rule = .literal ∨ back ≠ "" →
          c = '"' := by
  obtain ⟨front, cs, htext, rfl⟩ := Text.standsAt_iff.1 hquote
  rcases literal_cases htext with ⟨body, back, rfl, hleast, hfinds⟩ | ⟨hnone, hfinds⟩
  · -- the quote at the end of the match is the first that can close
    constructor
    · refine .of_isLeast hleast ?_
      rwa [← List.cons_append, ← List.append_assoc, Text.byteLength_append _ ['"']] at hfinds
    · -- the last character of the match is that quote, and both splits end there
      intro rule stop hother front' c back' hsplit hstop _
      obtain ⟨-, rfl⟩ := hother.unique hfinds
      have hchars : (front'.toList ++ [c]) ++ back'.toList =
          (front ++ '"' :: (body ++ ['"'])) ++ back := by
        have hlist := congrArg String.toList hsplit
        simp only [String.toList_append, String.toList_singleton] at hlist
        rw [← hlist, htext]
        simp
      -- both end where the match ends
      have hsame := (Text.append_inj_of_byteLength hchars (by
        rw [← hstop, ← Text.byteLength_toList, String.toList_append, String.toList_singleton])).1
      have hlast := congrArg List.getLast? hsame
      rw [List.getLast?_concat, ← List.cons_append, ← List.append_assoc,
        List.getLast?_concat] at hlast
      exact Option.some.inj hlast
  · -- no quote can close, and the match ends with the text
    refine ⟨.of_eq_empty hnone hfinds, ?_⟩
    intro rule stop hother front' c back' hsplit hstop hends
    obtain ⟨rfl, rfl⟩ := hother.unique hfinds
    -- nothing is left behind the end of the text
    rw [hsplit, String.utf8ByteSize_append (t := back')] at hstop
    have hback : back' = "" := String.utf8ByteSize_eq_zero_iff.1 (by omega)
    exact absurd hback (hends.resolve_left (by decide))

/-- An escaped quote, a newline and a comment mark stay inside a literal, and a backslash at the end of
the text closes nothing. -/
theorem literal_ends_at_first_quote_escaped :
    Text.StandsAt "x \"é\\\"\n//\"y" "\"" 2 ∧ FindsAt "x \"é\\\"\n//\"y" 2 .literal 11 ∧
    Text.StandsAt "\"\\" "\"" 0 ∧ FindsAt "\"\\" 0 .unterminatedLiteral 2 := by
  have hquote : Text.StandsAt "x \"é\\\"\n//\"y" "\"" 2 :=
    ⟨"x ", "é\\\"\n//\"y", by decide, by decide⟩
  have hopen : Text.StandsAt "\"\\" "\"" 0 := ⟨"", "\\", by decide, by decide⟩
  have hbody : LiteralBody "é\\\"\n//".toList :=
    .plain (by decide) (by decide) (.escaped (.plain (by decide) (by decide)
      (.plain (by decide) (by decide) (.plain (by decide) (by decide) .nil))))
  have hsplit : "x \"é\\\"\n//\"y".toList =
      "x ".toList ++ '"' :: ("é\\\"\n//".toList ++ '"' :: "y".toList) := by decide
  have hmark : IsLeast (closingQuotes "x \"é\\\"\n//\"y" 2) 10 :=
    isLeast_closingQuotes hsplit hbody
  have hnone : closingQuotes "\"\\" 0 = ∅ :=
    closingQuotes_eq_empty (by decide : _ = [] ++ '"' :: ['\\'])
      (closeLiteral?_eq_none_iff.1 (by decide : Grammar.Lexeme.closeLiteral? 1 ['\\'] = none))
  obtain ⟨mark, hleast, hfinds⟩ := (literal_ends_at_first_quote _ _ hquote).1.1 ⟨10, hmark.1⟩
  obtain rfl := hleast.unique hmark
  exact ⟨hquote, hfinds, hopen, (literal_ends_at_first_quote _ _ hopen).1.2 hnone⟩

end TokenCensus

import TokenCensus.Grammar.Lexeme

/-!
# The languages of the lexemes

Each function of `Grammar.Lexeme` computes the length of a lexeme by looking at a text from the
left.  Here each of them is given a language: the lexemes that it takes, and what may follow them.
The functions and the languages meet in `Recognises`, and everything else about lexemes is then
said of the languages alone.

Numbers have a file of their own.

## Key results

- `closeComment?_eq_some_iff`: a block comment ends at the first closing mark
- `closeLiteral?_eq_some_iff`: a literal ends at the first quote that no backslash has taken
- `operator?_recognises`: no operator continues with the character behind it
- `keyword?_recognises`: a reserved word ends at a word boundary
-/

namespace TokenCensus.Grammar

/-! ## Where a run of characters stops -/

/-- `rest` does not go on with a character of `p`. -/
def Stops (p : Char → Bool) (rest : List Char) : Prop :=
  ∀ c ∈ rest.head?, p c = false

@[simp] theorem stops_nil (p : Char → Bool) : Stops p [] := by
  simp [Stops]

@[simp] theorem stops_cons {p : Char → Bool} {c : Char} {cs : List Char} :
    Stops p (c :: cs) ↔ p c = false := by
  simp [Stops]

theorem stops_iff {p : Char → Bool} {rest : List Char} :
    Stops p rest ↔ rest.head?.any p = false := by
  cases rest with
  | nil => simp
  | cons c cs => simp

/-- Fewer characters to go on with stop earlier. -/
theorem Stops.mono {p q : Char → Bool} {rest : List Char} (h : Stops q rest)
    (hpq : ∀ c, p c = true → q c = true) : Stops p rest := by
  intro c hc
  have hq := h c hc
  cases hp : p c with
  | false => rfl
  | true => rw [hpq c hp] at hq; exact nomatch hq

theorem stops_dropWhile (p : Char → Bool) (cs : List Char) : Stops p (cs.dropWhile p) := by
  intro c hc
  have := List.head?_dropWhile_not p cs
  rw [Option.mem_def.1 hc] at this
  simpa using this

theorem takeWhile_append_of_stops {p : Char → Bool} {xs rest : List Char}
    (hxs : ∀ c ∈ xs, p c = true) (hrest : Stops p rest) : (xs ++ rest).takeWhile p = xs := by
  rw [List.takeWhile_append_of_pos hxs]
  cases rest with
  | nil => simp
  | cons c cs => simp [stops_cons.1 hrest]

theorem runLength_append {p : Char → Bool} {xs rest : List Char}
    (hxs : ∀ c ∈ xs, p c = true) (hrest : Stops p rest) :
    runLength p (xs ++ rest) = xs.length := by
  rw [runLength, takeWhile_append_of_stops hxs hrest]

/-- A text is a run of characters of `p` and what follows it. -/
theorem exists_run_append (p : Char → Bool) (cs : List Char) :
    ∃ xs rest, xs ++ rest = cs ∧ runLength p cs = xs.length ∧ (∀ c ∈ xs, p c = true) ∧
      Stops p rest :=
  ⟨cs.takeWhile p, cs.dropWhile p, List.takeWhile_append_dropWhile, rfl,
    fun _ hc => List.all_eq_true.1 List.all_takeWhile _ hc, stops_dropWhile p cs⟩

theorem nonzero?_eq_some_iff {n m : Nat} : nonzero? n = some m ↔ n = m ∧ 0 < m := by
  unfold nonzero?
  split <;> simp <;> omega

/-! ## What a function takes off the front of a text -/

/-- `length?` finds the length of `lexeme` at the front of `lexeme ++ rest` exactly where
`Takes lexeme rest`. -/
def Recognises (length? : List Char → Option Nat) (Takes : List Char → List Char → Prop) : Prop :=
  ∀ cs n, length? cs = some n ↔
    ∃ lexeme rest, lexeme ++ rest = cs ∧ lexeme.length = n ∧ Takes lexeme rest

namespace Recognises

variable {length? : List Char → Option Nat} {Takes : List Char → List Char → Prop}

/-- What is found is taken, and what is taken is found. -/
theorem intro
    (hfound : ∀ cs n, length? cs = some n →
      ∃ lexeme rest, lexeme ++ rest = cs ∧ lexeme.length = n ∧ Takes lexeme rest)
    (htaken : ∀ lexeme rest, Takes lexeme rest →
      length? (lexeme ++ rest) = some lexeme.length) : Recognises length? Takes := by
  intro cs n
  refine ⟨hfound cs n, fun h => ?_⟩
  obtain ⟨lexeme, rest, rfl, rfl, htakes⟩ := h
  exact htaken lexeme rest htakes

theorem eq_some (h : Recognises length? Takes) {lexeme rest : List Char}
    (htakes : Takes lexeme rest) : length? (lexeme ++ rest) = some lexeme.length :=
  (h _ _).2 ⟨lexeme, rest, rfl, rfl, htakes⟩

theorem takes (h : Recognises length? Takes) {lexeme rest : List Char}
    (hsome : length? (lexeme ++ rest) = some lexeme.length) : Takes lexeme rest := by
  -- of two fronts of equal length there is only one
  obtain ⟨lexeme', rest', happ, hlen, htakes⟩ := (h _ _).1 hsome
  obtain ⟨rfl, rfl⟩ := List.append_inj happ hlen
  exact htakes

theorem le_length (h : Recognises length? Takes) {cs : List Char} {n : Nat}
    (hsome : length? cs = some n) : n ≤ cs.length := by
  obtain ⟨lexeme, rest, rfl, rfl, -⟩ := (h _ _).1 hsome
  simp

theorem eq_none_iff (h : Recognises length? Takes) {cs : List Char} :
    length? cs = none ↔ ∀ lexeme rest, lexeme ++ rest = cs → ¬ Takes lexeme rest := by
  refine ⟨fun hnone lexeme rest happ htakes => ?_, fun hno => ?_⟩
  · rw [← happ, h.eq_some htakes] at hnone
    exact nomatch hnone
  · -- a length would belong to a lexeme that is taken
    cases hlen : length? cs with
    | none => rfl
    | some n =>
      obtain ⟨lexeme, rest, happ, -, htakes⟩ := (h _ _).1 hlen
      exact absurd htakes (hno lexeme rest happ)

end Recognises

namespace Lexeme

/-! ## Blanks and comments -/

theorem whitespace?_recognises :
    Recognises whitespace? fun lexeme rest =>
      lexeme ≠ [] ∧ (∀ c ∈ lexeme, isBlank c = true) ∧ Stops isBlank rest := by
  apply Recognises.intro
  · intro cs n h
    -- all blanks at the front, and at least one
    obtain ⟨blanks, rest, rfl, hrun, hblanks, hrest⟩ := exists_run_append isBlank cs
    rw [whitespace?, hrun] at h
    obtain ⟨hlength, hpos⟩ := nonzero?_eq_some_iff.1 h
    have hne : blanks ≠ [] := List.length_pos_iff.1 (hlength ▸ hpos)
    exact ⟨blanks, rest, rfl, hlength, hne, hblanks, hrest⟩
  · intro blanks rest h
    obtain ⟨hne, hblanks, hrest⟩ := h
    rw [whitespace?, nonzero?_eq_some_iff]
    exact ⟨runLength_append hblanks hrest, List.length_pos_iff.2 hne⟩

/-- Two slashes and the rest of their line. -/
def IsLineComment (lexeme : List Char) : Prop :=
  ∃ body, lexeme = '/' :: '/' :: body ∧ '\n' ∉ body

/-- Text between an opening and a closing mark, with no earlier closing mark. -/
def IsBlockComment (lexeme : List Char) : Prop :=
  ∃ body, lexeme = '/' :: '*' :: (body ++ ['*', '/']) ∧ ¬ ['*', '/'] <:+: body ++ ['*']

/-- Reading on from a character that starts no closing mark changes nothing. -/
private theorem closingMark_infix_cons {c : Char} {cs : List Char}
    (hc : ∀ tail, c = '*' → cs ≠ '/' :: tail) :
    ['*', '/'] <:+: c :: cs ↔ ['*', '/'] <:+: cs := by
  rw [List.infix_cons_iff]
  constructor
  · intro h
    rcases h with hpre | hinf
    · -- the mark would start with `c`
      obtain ⟨tail, htail⟩ := hpre
      simp only [List.cons_append, List.nil_append, List.cons.injEq] at htail
      exact absurd htail.2.symm (hc tail htail.1.symm)
    · exact hinf
  · exact Or.inr

/-- A block comment ends at the first closing mark. -/
theorem closeComment?_eq_some_iff {seen n : Nat} {cs : List Char} :
    closeComment? seen cs = some n ↔
      ∃ body rest, body ++ '*' :: '/' :: rest = cs ∧ seen + body.length + 2 = n ∧
        ¬ ['*', '/'] <:+: body ++ ['*'] := by
  fun_induction closeComment? seen cs with
  | case1 => simp
  -- the text starts with the closing mark
  | case2 seen tail =>
    constructor
    · intro h
      exact ⟨[], tail, rfl, by simpa using h, by decide⟩
    · intro h
      obtain ⟨body, rest, happ, rfl, hfirst⟩ := h
      cases body with
      | nil => rfl
      | cons c body =>
        -- the body would begin with the closing mark
        obtain ⟨rfl, hbody⟩ := List.cons.inj happ
        cases body with
        | nil => simp at hbody
        | cons d body =>
          obtain ⟨rfl, -⟩ := List.cons.inj hbody
          exact absurd ⟨[], body ++ ['*'], rfl⟩ hfirst
  -- the text starts with a character of the body
  | case3 seen c cs hopen ih =>
    rw [ih]
    constructor
    · intro h
      obtain ⟨body, rest, rfl, rfl, hfirst⟩ := h
      refine ⟨c :: body, rest, rfl, by simp; omega, ?_⟩
      rw [List.cons_append, closingMark_infix_cons]
      · exact hfirst
      · -- a mark here would have ended the comment
        intro tail hc htail
        cases body with
        | nil => simp at htail
        | cons d body =>
          obtain ⟨rfl, -⟩ := List.cons.inj htail
          exact hopen _ hc rfl
    · intro h
      obtain ⟨body, rest, happ, rfl, hfirst⟩ := h
      cases body with
      | nil =>
        obtain ⟨rfl, rfl⟩ := List.cons.inj happ
        exact absurd rfl (hopen _ rfl)
      | cons d body =>
        obtain ⟨rfl, rfl⟩ := List.cons.inj happ
        refine ⟨body, rest, rfl, by simp; omega, fun hinf => hfirst ?_⟩
        exact List.infix_cons hinf

/-- A block comment stays open exactly when there is no closing mark. -/
theorem closeComment?_eq_none_iff {seen : Nat} {cs : List Char} :
    closeComment? seen cs = none ↔ ¬ ['*', '/'] <:+: cs := by
  fun_induction closeComment? seen cs with
  | case1 => simp
  | case2 seen tail =>
    refine iff_of_false (by simp) (fun h => h ⟨[], tail, rfl⟩)
  | case3 seen c cs hopen ih =>
    rw [ih, closingMark_infix_cons]
    intro tail hc htail
    exact hopen tail hc htail

theorem comment?_recognises :
    Recognises comment? fun lexeme rest =>
      IsLineComment lexeme ∧ Stops (· ≠ '\n') rest ∨ IsBlockComment lexeme := by
  apply Recognises.intro
  · intro cs n h
    unfold comment? at h
    split at h
    · -- a comment up to the end of its line
      rename_i tail
      obtain ⟨body, rest, rfl, hrun, hbody, hrest⟩ := exists_run_append (· ≠ '\n') tail
      rw [hrun, Option.some.injEq] at h
      refine ⟨'/' :: '/' :: body, rest, rfl, by simp; omega, .inl ⟨⟨body, rfl, ?_⟩, hrest⟩⟩
      intro hmem
      simpa using hbody _ hmem
    · -- a block comment
      obtain ⟨body, rest, rfl, rfl, hfirst⟩ := closeComment?_eq_some_iff.1 h
      exact ⟨_, rest, by simp, by simp; omega, .inr ⟨body, rfl, hfirst⟩⟩
    · exact nomatch h
  · intro lexeme rest h
    rcases h with ⟨⟨body, rfl, hbody⟩, hrest⟩ | ⟨body, rfl, hfirst⟩
    · -- no newline in the body, so it is the run that the function measures
      have hline : ∀ c ∈ body, decide (c ≠ '\n') = true := by
        intro c hc
        rw [decide_eq_true_eq]
        intro heq
        subst heq
        exact hbody hc
      simp only [List.cons_append, comment?, runLength_append hline hrest, List.length_cons]
      congr 1
      omega
    · refine closeComment?_eq_some_iff.2 ⟨body, rest, by simp, by simp; omega, hfirst⟩

/-- The start of a block comment. -/
def OpensComment (lexeme : List Char) : Prop :=
  ['/', '*'] <+: lexeme

theorem unterminatedComment?_recognises :
    Recognises unterminatedComment? fun lexeme rest => OpensComment lexeme ∧ rest = [] := by
  apply Recognises.intro
  · intro cs n h
    unfold unterminatedComment? at h
    split at h
    · -- the mark is there, and the lexeme is the whole text
      rename_i body
      refine ⟨'/' :: '*' :: body, [], by simp, ?_, ⟨body, rfl⟩, rfl⟩
      simp only [Option.some.injEq] at h
      simp only [List.length_cons]
      omega
    · exact nomatch h
  · intro lexeme rest h
    obtain ⟨⟨body, rfl⟩, rfl⟩ := h
    simp [unterminatedComment?]
    omega

/-! ## Words -/

theorem isWord_of_isWordStart {c : Char} (h : isWordStart c = true) : isWord c = true := by
  simp only [isWordStart, isWord, Char.isAlphanum, Bool.or_eq_true] at h ⊢
  exact h.imp_left .inl

/-- A word that starts like an identifier. -/
def IsIdentifier (lexeme : List Char) : Prop :=
  ∃ c cs, lexeme = c :: cs ∧ isWordStart c = true ∧ ∀ d ∈ cs, isWord d = true

theorem identifier?_recognises :
    Recognises identifier? fun lexeme rest => IsIdentifier lexeme ∧ Stops isWord rest := by
  apply Recognises.intro
  · intro cs n h
    unfold identifier? at h
    split at h
    · exact nomatch h
    · rename_i c cs
      -- the first character may start a word, and the word goes on as far as it can
      obtain ⟨word, rest, rfl, hrun, hword, hrest⟩ := exists_run_append isWord cs
      split at h
      · rename_i hc
        rw [hrun, Option.some.injEq] at h
        exact ⟨c :: word, rest, rfl, by simp; omega, ⟨c, word, rfl, hc, hword⟩, hrest⟩
      · exact nomatch h
  · intro lexeme rest h
    obtain ⟨⟨c, word, rfl, hc, hword⟩, hrest⟩ := h
    simp only [List.cons_append, identifier?, hc, if_true, runLength_append hword hrest,
      List.length_cons]
    congr 1
    omega

theorem isWord_of_mem_keywordSpellings :
    ∀ word ∈ keywordSpellings, ∀ c ∈ word, isWord c = true := by
  have hall : ∀ word ∈ keywordSpellings, word.all isWord = true := by decide
  exact fun word hword => List.all_eq_true.1 (hall word hword)

/-- A reserved word stands between two word boundaries. -/
theorem keyword?_recognises (before : Option Char) :
    Recognises (keyword? before) fun lexeme rest =>
      before.any isWord = false ∧ lexeme ∈ keywordSpellings ∧ Stops isWord rest := by
  apply Recognises.intro
  · intro cs n h
    dsimp only [keyword?] at h
    split at h
    · exact nomatch h
    · -- with a boundary before it, the word at the front is looked up among the reserved ones
      split at h
      · rename_i hbefore hmem
        simp only [Option.some.injEq] at h
        exact ⟨_, cs.dropWhile isWord, List.takeWhile_append_dropWhile, h,
          by simpa using hbefore, hmem, stops_dropWhile isWord cs⟩
      · exact nomatch h
  · intro word rest h
    obtain ⟨hbefore, hmem, hrest⟩ := h
    have hword := isWord_of_mem_keywordSpellings word hmem
    simp [keyword?, takeWhile_append_of_stops hword hrest, hbefore, hmem]

/-! ## Operators and punctuators -/

theorem take_mem_operatorSpellings :
    ∀ operator ∈ operatorSpellings, ∀ n < 4, 0 < n → operator.take n ∈ operatorSpellings := by
  decide

theorem length_le_of_mem_operatorSpellings :
    ∀ operator ∈ operatorSpellings, operator.length ≤ 3 := by
  decide

/-- What is found is the length of the longest operator. -/
theorem operator?_eq_some_iff {cs : List Char} {n : Nat} :
    operator? cs = some n ↔
      (∃ operator ∈ operatorSpellings, operator <+: cs ∧ operator.length = n) ∧
        ∀ operator ∈ operatorSpellings, operator <+: cs → operator.length ≤ n := by
  -- the greatest of the lengths of all operators at the front
  rw [operator?, List.max?_eq_some_iff]
  simp only [List.mem_map, List.mem_filter, List.isPrefixOf_iff_prefix, and_assoc]
  refine and_congr_right fun _ => ⟨fun h => ?_, fun h => ?_⟩
  · intro operator hmem hpre
    exact h _ ⟨operator, hmem, hpre, rfl⟩
  · intro k hk
    obtain ⟨operator, hmem, hpre, hlength⟩ := hk
    rw [← hlength]
    exact h operator hmem hpre

/-- An operator that no other continues by one character is the longest, since all shorter forms of
an operator are operators too. -/
theorem length_le_of_stops {operator other rest : List Char}
    (hstops : Stops (fun c => operatorSpellings.contains (operator ++ [c])) rest)
    (hother : other ∈ operatorSpellings) (hpre : other <+: operator ++ rest) :
    other.length ≤ operator.length := by
  -- a longer one has a form with just one character more, and that is an operator too
  refine Nat.le_of_not_lt fun hlt => ?_
  obtain ⟨tail, htail⟩ := hpre
  have hlen := length_le_of_mem_operatorSpellings other hother
  have htake := take_mem_operatorSpellings other hother (operator.length + 1) (by omega) (by omega)
  cases rest with
  -- there is nothing left for it to go on with
  | nil =>
    have := congrArg List.length htail
    simp only [List.length_append, List.length_nil] at this
    omega
  | cons c rest =>
    -- the first character that is longer continues the operator
    have hnext : other.take (operator.length + 1) = operator ++ [c] := by
      rw [← List.take_append_of_le_length (by omega : operator.length + 1 ≤ other.length), htail,
        List.take_length_add_append, List.take_succ_cons, List.take_zero]
    rw [hnext] at htake
    have hstop := stops_cons.1 hstops
    rw [List.contains_iff_mem.2 htake] at hstop
    exact nomatch hstop

/-- No operator continues with the character behind it. -/
theorem operator?_recognises :
    Recognises operator? fun lexeme rest =>
      lexeme ∈ operatorSpellings ∧
        Stops (fun c => operatorSpellings.contains (lexeme ++ [c])) rest := by
  apply Recognises.intro
  · intro cs n h
    obtain ⟨⟨operator, hmem, ⟨rest, rfl⟩, hlength⟩, hmax⟩ := operator?_eq_some_iff.1 h
    -- one character more would be a longer operator
    refine ⟨operator, rest, rfl, hlength, hmem, ?_⟩
    intro c hc
    refine Bool.eq_false_iff.2 fun hlonger => ?_
    obtain ⟨tail, rfl⟩ := List.head?_eq_some_iff.1 hc
    have := hmax _ (List.contains_iff_mem.1 hlonger) ⟨tail, by simp⟩
    rw [List.length_append, List.length_singleton] at this
    omega
  · intro operator rest h
    obtain ⟨hmem, hstops⟩ := h
    refine operator?_eq_some_iff.2 ⟨⟨operator, hmem, ⟨rest, rfl⟩, rfl⟩, ?_⟩
    intro other hother hpre
    exact length_le_of_stops hstops hother hpre

theorem punctuator?_recognises :
    Recognises punctuator? fun lexeme _ => ∃ c ∈ punctuators, lexeme = [c] := by
  apply Recognises.intro
  · intro cs n h
    unfold punctuator? at h
    split at h
    · exact nomatch h
    · rename_i c rest
      split at h
      · exact ⟨[c], rest, rfl, by simpa using h, c, by assumption, rfl⟩
      · exact nomatch h
  · intro lexeme rest h
    obtain ⟨c, hc, rfl⟩ := h
    simp [punctuator?, hc]

theorem anyCharacter?_recognises :
    Recognises anyCharacter? fun lexeme _ => ∃ c, lexeme = [c] := by
  apply Recognises.intro
  · intro cs n h
    unfold anyCharacter? at h
    split at h
    · exact nomatch h
    · rename_i c rest
      exact ⟨[c], rest, rfl, by simpa using h, c, rfl⟩
  · intro lexeme rest h
    obtain ⟨c, rfl⟩ := h
    rfl

/-! ## Literals -/

/-- What stands between the quotes of a literal: quotes and backslashes only behind a backslash
that takes them. -/
inductive LiteralBody : List Char → Prop where
  | nil : LiteralBody []
  | plain {c : Char} {cs : List Char} (hquote : c ≠ '"') (hslash : c ≠ '\\')
      (hcs : LiteralBody cs) : LiteralBody (c :: cs)
  | escaped {c : Char} {cs : List Char} (hcs : LiteralBody cs) : LiteralBody ('\\' :: c :: cs)

/-- A literal with both of its quotes. -/
def IsLiteral (lexeme : List Char) : Prop :=
  ∃ body, lexeme = '"' :: (body ++ ['"']) ∧ LiteralBody body

/-- A literal ends at the first quote that no backslash has taken. -/
theorem closeLiteral?_eq_some_iff {seen n : Nat} {cs : List Char} :
    closeLiteral? seen cs = some n ↔
      ∃ body rest, body ++ '"' :: rest = cs ∧ seen + body.length + 1 = n ∧ LiteralBody body := by
  fun_induction closeLiteral? seen cs with
  | case1 => simp
  -- the closing quote
  | case2 seen tail =>
    constructor
    · intro h
      exact ⟨[], tail, rfl, by simpa using h, .nil⟩
    · intro h
      obtain ⟨body, rest, happ, rfl, hbody⟩ := h
      cases hbody with
      | nil => rfl
      | plain hquote => exact absurd (List.cons.inj happ).1 hquote
      | escaped => simp at happ
  -- a backslash and what it takes
  | case3 seen c cs ih =>
    rw [ih]
    constructor
    · intro h
      obtain ⟨body, rest, rfl, rfl, hbody⟩ := h
      exact ⟨'\\' :: c :: body, rest, rfl, by simp; omega, .escaped hbody⟩
    · intro h
      obtain ⟨body, rest, happ, rfl, hbody⟩ := h
      cases hbody with
      | nil => simp at happ
      | plain _ hslash => exact absurd (List.cons.inj happ).1 hslash
      | escaped hcs =>
        simp only [List.cons_append, List.cons.injEq, true_and] at happ
        obtain ⟨rfl, rfl⟩ := happ
        exact ⟨_, rest, rfl, by simp; omega, hcs⟩
  -- any other character, also a backslash at the end of the text
  | case4 seen c cs hquote hslash ih =>
    rw [ih]
    constructor
    · intro h
      obtain ⟨body, rest, rfl, rfl, hbody⟩ := h
      refine ⟨c :: body, rest, rfl, by simp; omega, .plain hquote ?_ hbody⟩
      -- the quote that follows is a character to take
      intro hc
      cases body with
      | nil => exact hslash _ _ hc rfl
      | cons d body => exact hslash _ _ hc rfl
    · intro h
      obtain ⟨body, rest, happ, rfl, hbody⟩ := h
      cases hbody with
      | nil => exact absurd (List.cons.inj happ).1.symm hquote
      | plain _ _ hcs =>
        obtain ⟨rfl, rfl⟩ := List.cons.inj happ
        exact ⟨_, rest, rfl, by simp; omega, hcs⟩
      | escaped =>
        obtain ⟨rfl, rfl⟩ := List.cons.inj happ
        exact absurd rfl (hslash _ _ rfl)

/-- A literal stays open exactly when no quote in the text can close it. -/
theorem closeLiteral?_eq_none_iff {seen : Nat} {cs : List Char} :
    closeLiteral? seen cs = none ↔
      ∀ body rest, cs = body ++ '"' :: rest → ¬ LiteralBody body := by
  constructor
  · -- a body that closes it would be found
    intro h body rest hcs hbody
    have hsome : closeLiteral? seen cs = some (seen + body.length + 1) :=
      closeLiteral?_eq_some_iff.2 ⟨body, rest, hcs.symm, rfl, hbody⟩
    rw [h] at hsome
    exact nomatch hsome
  · intro h
    -- a length that is found comes with such a body
    cases hclose : closeLiteral? seen cs with
    | none => rfl
    | some n =>
      obtain ⟨body, rest, hcs, -, hbody⟩ := closeLiteral?_eq_some_iff.1 hclose
      exact absurd hbody (h body rest hcs.symm)

theorem literal?_recognises : Recognises literal? fun lexeme _ => IsLiteral lexeme := by
  apply Recognises.intro
  · intro cs n h
    unfold literal? at h
    split at h
    · obtain ⟨body, rest, rfl, rfl, hbody⟩ := closeLiteral?_eq_some_iff.1 h
      exact ⟨_, rest, by simp, by simp; omega, body, rfl, hbody⟩
    · exact nomatch h
  · intro lexeme rest h
    obtain ⟨body, rfl, hbody⟩ := h
    exact closeLiteral?_eq_some_iff.2 ⟨body, rest, by simp, by simp; omega, hbody⟩

/-- The start of a literal. -/
def OpensLiteral (lexeme : List Char) : Prop :=
  ['"'] <+: lexeme

theorem unterminatedLiteral?_recognises :
    Recognises unterminatedLiteral? fun lexeme rest => OpensLiteral lexeme ∧ rest = [] := by
  apply Recognises.intro
  · intro cs n h
    unfold unterminatedLiteral? at h
    split at h
    · rename_i body
      refine ⟨'"' :: body, [], by simp, ?_, ⟨body, rfl⟩, rfl⟩
      simp only [Option.some.injEq] at h
      simp only [List.length_cons]
      omega
    · exact nomatch h
  · intro lexeme rest h
    obtain ⟨⟨body, rfl⟩, rfl⟩ := h
    simp [unterminatedLiteral?]
    omega

end Lexeme

end TokenCensus.Grammar

import Mathlib.Computability.Language
import Mathlib.Data.List.Chain
import TokenCensus.Proofs.Separation

/-!
# The patterns of the rules

Each rule has a pattern, a regular expression over characters.  `Rule.pattern` is its language, put
together from characters by concatenation, choice and repetition, and it says nothing of what else
may stand in the text.  What a rule takes off the front of a text is a word of its language with
nothing behind it that would go on.

The pattern of reserved words has word boundaries around it, which look at the text on both sides.
They are the only thing in the grammar that does.

## Key results

- `Pattern.mem_blockBody_iff`, `Pattern.mem_literalBody_iff`, `Pattern.mem_number_iff`: the patterns
  that have parts
- `Rule.mem_pattern_iff`: the words of a pattern are the lexemes that fit with no text around them
- `Rule.matchesIn_of_fits`, `Rule.fits_of_matchesIn`: what a rule takes matches its pattern in full,
  and what matches is taken where the text ends
-/

namespace TokenCensus.Grammar

open scoped Computability
open Lexeme

namespace Pattern

/-- One character of a class. -/
def one (p : Char → Bool) : Language Char := {word | ∃ c, p c = true ∧ word = [c]}

/-- A text as it is. -/
def verbatim (text : List Char) : Language Char := {text}

/-- One of several texts. -/
def oneOf (texts : List (List Char)) : Language Char := {word | word ∈ texts}

/-- At least once. -/
def plus (pattern : Language Char) : Language Char := pattern * pattern∗

/-- At most once. -/
def optional (pattern : Language Char) : Language Char := 1 + pattern

/-- Text up to a run of stars, and the run. -/
def throughStars : Language Char := (one (· ≠ '*'))∗ * plus (one (· = '*'))

/-- What stands between the star of the opening mark and the slash of the closing one: a run of
stars that is not the last is followed by something other than a slash. -/
def blockBody : Language Char :=
  throughStars * (one (fun c => c ≠ '/' && c ≠ '*') * throughStars)∗

/-- What stands between the quotes of a literal. -/
def literalBody : Language Char :=
  (one (fun c => c ≠ '"' && c ≠ '\\'))∗ *
    (verbatim ['\\'] * one (fun _ => true) * (one (fun c => c ≠ '"' && c ≠ '\\'))∗)∗

/-- Digits with at most one point. -/
def mantissa : Language Char :=
  plus (one Char.isDigit) * optional (verbatim ['.']) * (one Char.isDigit)∗ +
    verbatim ['.'] * plus (one Char.isDigit)

/-- An exponent. -/
def exponent : Language Char :=
  one (fun c => c = 'e' || c = 'E') * optional (one isSign) * plus (one Char.isDigit)

/-- A number, with or without a sign. -/
def number : Language Char := optional (one isSign) * mantissa * optional exponent

end Pattern

open Pattern

/-- The language of the pattern of a rule.  Of the pattern of reserved words, it is what stands
between the word boundaries. -/
def Rule.pattern : Rule → Language Char
  | whitespace => plus (one isBlank)
  | comment =>
    verbatim ['/', '/'] * (one (· ≠ '\n'))∗ + verbatim ['/', '*'] * blockBody * verbatim ['/']
  | unterminatedComment => verbatim ['/', '*'] * (one fun _ => true)∗
  | keyword => oneOf keywordSpellings
  | identifier => one isWordStart * (one isWord)∗
  | operator => oneOf operatorSpellings
  | constant => number
  | literal => verbatim ['"'] * literalBody * verbatim ['"']
  | unterminatedLiteral => verbatim ['"'] * (one fun _ => true)∗
  | punctuator => one (· ∈ punctuators)
  | unrecognised => one fun _ => true

namespace Pattern

/-! ## The parts of patterns -/

section

variable {p : Char → Bool} {pattern : Language Char} {text word : List Char}

@[simp] theorem mem_one_iff : word ∈ one p ↔ ∃ c, p c = true ∧ word = [c] := Iff.rfl

@[simp] theorem mem_oneOf_iff {texts : List (List Char)} : word ∈ oneOf texts ↔ word ∈ texts :=
  Iff.rfl

@[simp] theorem mem_verbatim_iff : word ∈ verbatim text ↔ word = text := Iff.rfl

@[simp] theorem mem_optional_iff : word ∈ optional pattern ↔ word = [] ∨ word ∈ pattern := Iff.rfl

theorem mem_one_mul_iff :
    word ∈ one p * pattern ↔ ∃ c rest, word = c :: rest ∧ p c = true ∧ rest ∈ pattern := by
  rw [Language.mem_mul]
  constructor
  · rintro ⟨_, ⟨c, hc, rfl⟩, rest, hrest, rfl⟩
    exact ⟨c, rest, rfl, hc, hrest⟩
  · rintro ⟨c, rest, rfl, hc, hrest⟩
    exact ⟨[c], ⟨c, hc, rfl⟩, rest, hrest, rfl⟩

theorem mem_verbatim_mul_iff :
    word ∈ verbatim text * pattern ↔ ∃ rest ∈ pattern, word = text ++ rest := by
  rw [Language.mem_mul]
  constructor
  · rintro ⟨_, rfl, rest, hrest, rfl⟩
    exact ⟨rest, hrest, rfl⟩
  · rintro ⟨rest, hrest, rfl⟩
    exact ⟨text, rfl, rest, hrest, rfl⟩

theorem mem_mul_verbatim_iff :
    word ∈ pattern * verbatim text ↔ ∃ front ∈ pattern, word = front ++ text := by
  rw [Language.mem_mul]
  constructor
  · rintro ⟨front, hfront, _, rfl, rfl⟩
    exact ⟨front, hfront, rfl⟩
  · rintro ⟨front, hfront, rfl⟩
    exact ⟨front, hfront, text, rfl, rfl⟩

/-- A repeated pattern may begin with the pattern once more. -/
theorem append_mem_kstar {rest : List Char} (hword : word ∈ pattern) (hrest : rest ∈ pattern∗) :
    word ++ rest ∈ pattern∗ :=
  Set.mem_of_subset_of_mem (mul_kstar_le_kstar (a := pattern))
    (Language.append_mem_mul hword hrest)

/-- What holds of the empty text and is kept by one more repetition holds of all of them. -/
theorem kstar_induction {P : List Char → Prop} (hword : word ∈ pattern∗) (hnil : P [])
    (happend : ∀ front ∈ pattern, ∀ rest, P rest → P (front ++ rest)) : P word := by
  obtain ⟨words, rfl, hwords⟩ := Language.mem_kstar.1 hword
  clear hword
  induction words with
  | nil => exact hnil
  | cons front words ih =>
    obtain ⟨hfront, hwords⟩ := List.forall_mem_cons.1 hwords
    exact happend front hfront _ (ih hwords)

theorem mem_kstar_one_iff : word ∈ (one p)∗ ↔ ∀ c ∈ word, p c = true := by
  constructor
  · intro h
    refine kstar_induction (P := fun word => ∀ c ∈ word, p c = true) h (by simp) ?_
    rintro _ ⟨c, hc, rfl⟩ rest hrest
    exact List.forall_mem_cons.2 ⟨hc, hrest⟩
  · intro h
    induction word with
    | nil => exact Language.nil_mem_kstar _
    | cons c word ih =>
      obtain ⟨hc, hword⟩ := List.forall_mem_cons.1 h
      have hone : [c] ∈ one p := ⟨c, hc, rfl⟩
      exact append_mem_kstar hone (ih hword)

theorem mem_plus_one_iff : word ∈ plus (one p) ↔ word ≠ [] ∧ ∀ c ∈ word, p c = true := by
  rw [plus, mem_one_mul_iff]
  constructor
  · rintro ⟨c, rest, rfl, hc, hrest⟩
    exact ⟨List.cons_ne_nil c rest, List.forall_mem_cons.2 ⟨hc, mem_kstar_one_iff.1 hrest⟩⟩
  · rintro ⟨hne, hword⟩
    obtain ⟨c, rest, rfl⟩ := List.exists_cons_of_ne_nil hne
    obtain ⟨hc, hrest⟩ := List.forall_mem_cons.1 hword
    exact ⟨c, rest, rfl, hc, mem_kstar_one_iff.2 hrest⟩

end

/-! ## Block comments -/

/-- No slash stands behind a star. -/
theorem isChain_iff_closingMark {cs : List Char} :
    cs.IsChain (fun c d => c = '*' → d ≠ '/') ↔ ¬ ['*', '/'] <:+: cs := by
  rw [List.isChain_iff_forall_rel_of_append_cons_cons]
  constructor
  · rintro h ⟨front, back, hcs⟩
    -- a star and a slash next to each other would be a mark, and a mark is nothing else
    exact h (by simpa using hcs.symm) rfl rfl
  · rintro h c d front back hcs rfl rfl
    exact h ⟨front, back, by simpa using hcs.symm⟩

/-- Text up to a star that may be the last one. -/
def UpToStar (cs : List Char) : Prop :=
  cs.getLast? = some '*' ∧ cs.IsChain (fun c d => c = '*' → d ≠ '/')

theorem upToStar_of_mem_throughStars {word : List Char} (h : word ∈ throughStars) :
    UpToStar word := by
  obtain ⟨front, hfront, stars, hstars, rfl⟩ := Language.mem_mul.1 h
  obtain ⟨hne, hstars⟩ := mem_plus_one_iff.1 hstars
  rw [mem_kstar_one_iff] at hfront
  simp only [decide_eq_true_eq] at hfront hstars
  refine ⟨?_, List.isChain_append.2 ⟨?_, ?_, ?_⟩⟩
  · -- the last star of the run is the last character
    rw [List.getLast?_append_of_ne_nil _ hne, List.getLast?_eq_some_getLast hne,
      hstars _ (List.getLast_mem hne)]
  · -- there is no star before the run
    refine List.isChain_iff_forall_rel_of_append_cons_cons.2 fun c d front' back heq hc => ?_
    exact absurd hc (hfront c (by simp [heq]))
  · -- and no slash in it
    refine List.isChain_iff_forall_rel_of_append_cons_cons.2 fun c d front' back heq _ => ?_
    rw [hstars d (by simp [heq])]
    decide
  · -- between the two parts no star comes before
    intro c hc d _ hstar
    exact absurd hstar (hfront c (List.mem_of_getLast? hc))

theorem UpToStar.append {word rest : List Char} (h : UpToStar word) (hrest : UpToStar rest)
    {c : Char} (hslash : c ≠ '/') (hstar : c ≠ '*') : UpToStar (word ++ c :: rest) := by
  refine ⟨?_, List.isChain_append.2 ⟨h.2, List.isChain_cons.2 ⟨?_, hrest.2⟩, ?_⟩⟩
  · -- the end is that of `rest`
    rw [List.getLast?_append_of_ne_nil _ (List.cons_ne_nil c rest), List.getLast?_cons, hrest.1]
    rfl
  · -- `c` is no star, so it may stand before anything
    exact fun _ _ heq => absurd heq hstar
  · -- `c` is no slash, so it may stand behind a star
    rintro _ _ d hd -
    obtain rfl : d = c := by simpa using hd.symm
    exact hslash

theorem UpToStar.of_append {word rest : List Char} {c : Char} (h : UpToStar (word ++ c :: rest))
    (hword : word.getLast? = some '*') (hstar : c ≠ '*') : c ≠ '/' ∧ UpToStar rest := by
  obtain ⟨hlast, hchain⟩ := h
  obtain ⟨-, hrest, hjoint⟩ := List.isChain_append.1 hchain
  refine ⟨hjoint '*' hword c rfl rfl, ?_, (List.isChain_cons.1 hrest).2⟩
  rw [List.getLast?_append_of_ne_nil _ (List.cons_ne_nil c rest), List.getLast?_cons] at hlast
  -- without anything behind `c` the text would end in it
  cases hrest : rest.getLast? with
  | none => simp [hrest, hstar] at hlast
  | some d => simpa [hrest] using hlast

/-- A text up to a star has a first run of stars. -/
theorem UpToStar.exists_throughStars {word : List Char} (h : UpToStar word) :
    ∃ front ∈ throughStars, ∃ rest, word = front ++ rest ∧ Stops (· = '*') rest := by
  obtain ⟨front, tail, rfl, -, hfront, htail⟩ := exists_run_append (· ≠ '*') word
  obtain ⟨stars, rest, rfl, -, hstars, hrest⟩ := exists_run_append (· = '*') tail
  refine ⟨front ++ stars, ?_, rest, (List.append_assoc _ _ _).symm, hrest⟩
  refine Language.append_mem_mul (mem_kstar_one_iff.2 hfront) (mem_plus_one_iff.2 ⟨?_, hstars⟩)
  -- without a star, `c` would have to be one and not
  rintro rfl
  cases rest with
  | nil =>
    -- the text ends in a star, and there is none in `front`
    have hstar : '*' ∈ front := by simpa using List.mem_of_getLast? h.1
    simpa using hfront '*' hstar
  | cons c rest =>
    rw [List.nil_append, stops_cons, decide_eq_false_iff_not, not_not] at htail
    rw [stops_cons, decide_eq_false_iff_not] at hrest
    exact hrest htail

theorem mem_blockBody_of_upToStar {word : List Char} (h : UpToStar word) : word ∈ blockBody := by
  -- induction on the length of the text
  suffices ∀ n (word : List Char), word.length = n → UpToStar word → word ∈ blockBody from
    this _ word rfl h
  intro n
  induction n using Nat.strongRecOn with
  | ind n ih =>
    intro word hn h
    obtain ⟨front, hfront, rest, rfl, hrest⟩ := h.exists_throughStars
    -- nothing follows the run, so it is all
    cases rest with
    | nil => exact Language.append_mem_mul hfront (Language.nil_mem_kstar _)
    | cons c rest =>
      have hstar : c ≠ '*' := by simpa using stops_cons.1 hrest
      obtain ⟨hslash, hrest⟩ := h.of_append (upToStar_of_mem_throughStars hfront).1 hstar
      -- what is left is a shorter text of the same form
      have hshorter : rest.length < n := by
        rw [← hn, List.length_append, List.length_cons]
        omega
      have hbody := ih rest.length hshorter rest rfl hrest
      -- that is again text through stars, put behind `c`
      obtain ⟨front', hfront', more, hmore, rfl⟩ := Language.mem_mul.1 hbody
      have hone : c :: front' ∈ one (fun c => c ≠ '/' && c ≠ '*') * throughStars :=
        mem_one_mul_iff.2 ⟨c, front', rfl, by simp [hslash, hstar], hfront'⟩
      exact Language.append_mem_mul hfront (append_mem_kstar hone hmore)

/-- A text up to a star is text through its first run of stars, and more of it behind a character
that is neither a star nor a slash. -/
theorem mem_blockBody_iff {word : List Char} : word ∈ blockBody ↔ UpToStar word := by
  refine ⟨fun h => ?_, mem_blockBody_of_upToStar⟩
  obtain ⟨front, hfront, rest, hrest, rfl⟩ := Language.mem_mul.1 h
  -- more text keeps what holds of the text before it
  refine kstar_induction (P := fun rest => ∀ front, UpToStar front → UpToStar (front ++ rest))
    hrest (by simp) ?_ front (upToStar_of_mem_throughStars hfront)
  intro more hmore rest ih front hfront
  obtain ⟨c, stars, rfl, hc, hstars⟩ := mem_one_mul_iff.1 hmore
  simp only [ne_eq, Bool.and_eq_true, decide_eq_true_eq] at hc
  rw [← List.append_assoc]
  exact ih _ (hfront.append (upToStar_of_mem_throughStars hstars) hc.1 hc.2)

/-! ## Literals -/

theorem literalBody_of_mem_kstar {word : List Char}
    (h : word ∈ (one (fun c => c ≠ '"' && c ≠ '\\'))∗) {rest : List Char}
    (hrest : LiteralBody rest) : LiteralBody (word ++ rest) := by
  rw [mem_kstar_one_iff] at h
  induction word with
  | nil => exact hrest
  | cons c word ih =>
    obtain ⟨hc, hword⟩ := List.forall_mem_cons.1 h
    simp only [ne_eq, Bool.and_eq_true, decide_eq_true_eq] at hc
    exact .plain hc.1 hc.2 (ih hword)

theorem mem_literalBody_iff {word : List Char} : word ∈ literalBody ↔ LiteralBody word := by
  constructor
  · intro h
    obtain ⟨front, hfront, rest, hrest, rfl⟩ := Language.mem_mul.1 h
    -- repetition by repetition, each of them a backslash with what it takes
    refine literalBody_of_mem_kstar hfront (kstar_induction hrest .nil ?_)
    intro more hmore rest hrest
    rw [mul_assoc] at hmore
    obtain ⟨_, htaken, rfl⟩ := mem_verbatim_mul_iff.1 hmore
    obtain ⟨c, plain, rfl, -, hplain⟩ := mem_one_mul_iff.1 htaken
    exact .escaped (literalBody_of_mem_kstar hplain hrest)
  · intro h
    -- from the end of the body to its front
    induction h with
    | nil => exact Language.append_mem_mul (Language.nil_mem_kstar _) (Language.nil_mem_kstar _)
    | @plain c _ hquote hslash _ ih =>
      -- a plain character joins those at the front
      obtain ⟨front, hfront, rest, hrest, rfl⟩ := Language.mem_mul.1 ih
      have hone : [c] ∈ one (fun c => c ≠ '"' && c ≠ '\\') := ⟨c, by simp [hquote, hslash], rfl⟩
      exact Language.append_mem_mul (append_mem_kstar hone hfront) hrest
    | @escaped c _ _ ih =>
      obtain ⟨front, hfront, rest, hrest, rfl⟩ := Language.mem_mul.1 ih
      -- the backslash ends the plain characters
      refine Language.append_mem_mul (a := []) (Language.nil_mem_kstar _) ?_
      have hone : [c] ∈ one (fun _ => true) := ⟨c, rfl, rfl⟩
      have htaken : ['\\'] ++ [c] ++ front ∈ _ :=
        Language.append_mem_mul (Language.append_mem_mul (mem_verbatim_iff.2 rfl) hone) hfront
      exact append_mem_kstar htaken hrest

/-! ## Numbers -/

theorem mem_optional_sign_iff {word : List Char} :
    word ∈ optional (one isSign) ↔
      ∃ sign : Option Char, (∀ c ∈ sign, isSign c = true) ∧ sign.toList = word := by
  rw [mem_optional_iff, mem_one_iff]
  constructor
  · rintro (rfl | ⟨c, hc, rfl⟩)
    · exact ⟨none, nofun, rfl⟩
    · exact ⟨some c, by simpa using hc, rfl⟩
  · rintro ⟨sign, hsign, rfl⟩
    cases sign with
    | none => exact .inl rfl
    | some c => exact .inr ⟨c, hsign c rfl, rfl⟩

theorem mem_mantissa_iff {word : List Char} :
    word ∈ mantissa ↔ ∃ m : Mantissa, m.chars = word := by
  rw [mantissa, Language.mem_add, Language.mem_mul]
  constructor
  · rintro (⟨_, hfront, digits, hdigits, rfl⟩ | h)
    · obtain ⟨whole, hwhole, point, hpoint, rfl⟩ := Language.mem_mul.1 hfront
      obtain ⟨hne, hwhole⟩ := mem_plus_one_iff.1 hwhole
      rw [mem_kstar_one_iff] at hdigits
      rcases hpoint with rfl | rfl
      · -- without a point it is all one
        have hall := List.forall_mem_append.2 ⟨hwhole, hdigits⟩
        exact ⟨⟨whole ++ digits, none, hall, by simp, .inl (by simp [hne])⟩,
          by simp [Mantissa.chars]⟩
      · exact ⟨⟨whole, some digits, hwhole, by simpa using hdigits, .inl hne⟩,
          by simp [Mantissa.chars]⟩
    · obtain ⟨digits, hdigits, rfl⟩ := mem_verbatim_mul_iff.1 h
      obtain ⟨hne, hdigits⟩ := mem_plus_one_iff.1 hdigits
      exact ⟨⟨[], some digits, by simp, by simpa using hdigits, .inr ⟨digits, rfl, hne⟩⟩, rfl⟩
  · rintro ⟨⟨whole, fraction, hwhole, hfraction, hsome⟩, rfl⟩
    by_cases hne : whole = []
    · obtain ⟨digits, hdigits, hdigit⟩ := hsome.resolve_left (not_not.2 hne)
      obtain rfl := Option.mem_def.1 hdigits
      refine .inr (mem_verbatim_mul_iff.2 ⟨digits, mem_plus_one_iff.2 ⟨hdigit, ?_⟩, ?_⟩)
      · exact hfraction digits rfl
      · simp [Mantissa.chars, hne]
    · have hplus := mem_plus_one_iff.2 ⟨hne, hwhole⟩
      left
      cases fraction with
      | none =>
        refine ⟨whole ++ [], Language.append_mem_mul hplus (mem_optional_iff.2 (.inl rfl)), [],
          Language.nil_mem_kstar _, ?_⟩
        simp [Mantissa.chars]
      | some digits =>
        refine ⟨whole ++ ['.'], Language.append_mem_mul hplus (mem_optional_iff.2 (.inr rfl)),
          digits, mem_kstar_one_iff.2 (hfraction digits rfl), ?_⟩
        simp [Mantissa.chars]

theorem mem_exponent_iff {word : List Char} :
    word ∈ exponent ↔ ∃ e : Exponent, e.chars = word := by
  rw [exponent, mul_assoc, mem_one_mul_iff]
  constructor
  · rintro ⟨mark, rest, rfl, hmark, hrest⟩
    obtain ⟨_, hsign, digits, hdigits, rfl⟩ := Language.mem_mul.1 hrest
    obtain ⟨sign, hok, rfl⟩ := mem_optional_sign_iff.1 hsign
    obtain ⟨hne, hdigits⟩ := mem_plus_one_iff.1 hdigits
    exact ⟨⟨mark, sign, digits, by simpa using hmark, hok, hne, hdigits⟩, rfl⟩
  · rintro ⟨⟨mark, sign, digits, hmark, hsign, hne, hdigits⟩, rfl⟩
    exact ⟨mark, sign.toList ++ digits, rfl, by simpa using hmark, Language.append_mem_mul
      (mem_optional_sign_iff.2 ⟨sign, hsign, rfl⟩) (mem_plus_one_iff.2 ⟨hne, hdigits⟩)⟩

theorem mem_number_iff {word : List Char} : word ∈ number ↔ ∃ n : Number, n.chars = word := by
  rw [number, mul_assoc, Language.mem_mul]
  constructor
  · rintro ⟨_, hsign, _, hrest, rfl⟩
    obtain ⟨sign, hok, rfl⟩ := mem_optional_sign_iff.1 hsign
    obtain ⟨_, hmantissa, _, hexponent, rfl⟩ := Language.mem_mul.1 hrest
    obtain ⟨m, rfl⟩ := mem_mantissa_iff.1 hmantissa
    rcases hexponent with rfl | hexponent
    · exact ⟨⟨sign, m, none, hok⟩, rfl⟩
    · obtain ⟨e, rfl⟩ := mem_exponent_iff.1 hexponent
      exact ⟨⟨sign, m, some e, hok⟩, rfl⟩
  · rintro ⟨⟨sign, m, e, hsign⟩, rfl⟩
    refine ⟨_, mem_optional_sign_iff.2 ⟨sign, hsign, rfl⟩, _, ?_, rfl⟩
    refine Language.append_mem_mul (mem_mantissa_iff.2 ⟨m, rfl⟩) ?_
    cases e with
    | none => exact .inl rfl
    | some e => exact .inr (mem_exponent_iff.2 ⟨e, rfl⟩)

end Pattern

namespace Rule

/-! ## Rules and their patterns -/

theorem mem_lineComment_iff {word : List Char} :
    word ∈ verbatim ['/', '/'] * (one (· ≠ '\n'))∗ ↔ IsLineComment word := by
  rw [mem_verbatim_mul_iff]
  constructor
  · rintro ⟨body, hbody, rfl⟩
    rw [mem_kstar_one_iff] at hbody
    -- every character of the body is one that the repetition allows
    exact ⟨body, rfl, fun hnewline => by simpa using hbody _ hnewline⟩
  · rintro ⟨body, rfl, hbody⟩
    refine ⟨body, mem_kstar_one_iff.2 fun c hc => ?_, rfl⟩
    rw [decide_eq_true_eq]
    rintro rfl
    exact hbody hc

theorem mem_blockComment_iff {word : List Char} :
    word ∈ verbatim ['/', '*'] * blockBody * verbatim ['/'] ↔ IsBlockComment word := by
  rw [mem_mul_verbatim_iff]
  constructor
  · rintro ⟨_, hopened, rfl⟩
    -- up to the last star, the comment is text up to a star
    obtain ⟨stars, hstars, rfl⟩ := mem_verbatim_mul_iff.1 hopened
    obtain ⟨hlast, hchain⟩ := mem_blockBody_iff.1 hstars
    obtain ⟨body, rfl⟩ := List.getLast?_eq_some_iff.1 hlast
    exact ⟨body, by simp, isChain_iff_closingMark.1 hchain⟩
  · rintro ⟨body, rfl, hfirst⟩
    have hstars : body ++ ['*'] ∈ blockBody :=
      mem_blockBody_iff.2 ⟨by simp, isChain_iff_closingMark.2 hfirst⟩
    exact ⟨_, mem_verbatim_mul_iff.2 ⟨_, hstars, rfl⟩, by simp⟩

theorem mem_quoted_iff {word : List Char} :
    word ∈ verbatim ['"'] * literalBody * verbatim ['"'] ↔ IsLiteral word := by
  rw [mem_mul_verbatim_iff]
  constructor
  · rintro ⟨_, hopened, rfl⟩
    obtain ⟨body, hbody, rfl⟩ := mem_verbatim_mul_iff.1 hopened
    exact ⟨body, rfl, mem_literalBody_iff.1 hbody⟩
  · rintro ⟨body, rfl, hbody⟩
    exact ⟨_, mem_verbatim_mul_iff.2 ⟨body, mem_literalBody_iff.2 hbody, rfl⟩, rfl⟩

theorem mem_verbatim_mul_any_iff {mark word : List Char} :
    word ∈ verbatim mark * (one fun _ => true)∗ ↔ mark <+: word := by
  simp [mem_verbatim_mul_iff, mem_kstar_one_iff, List.IsPrefix, eq_comm]

/-- The words of a pattern are the lexemes that fit where the text is nothing else. -/
theorem mem_pattern_iff {rule : Rule} {word : List Char} :
    word ∈ rule.pattern ↔ rule.Fits none word [] := by
  -- rule by rule; at the end of a text nothing is left for a lexeme to stop at
  cases rule with
  | whitespace => simp [pattern, Fits, mem_plus_one_iff]
  | comment =>
    rw [pattern, Language.mem_add, mem_lineComment_iff, mem_blockComment_iff]
    simp [Fits]
  | unterminatedComment => simp [pattern, Fits, mem_verbatim_mul_any_iff, OpensComment]
  | keyword => simp [pattern, Fits]
  | identifier => simp [pattern, Fits, mem_one_mul_iff, mem_kstar_one_iff, IsIdentifier]
  | operator => simp [pattern, Fits]
  | constant => simp [pattern, Fits, mem_number_iff, Number.Ends, Exponent.chars]
  | literal => exact mem_quoted_iff
  | unterminatedLiteral => simp [pattern, Fits, mem_verbatim_mul_any_iff, OpensLiteral]
  | punctuator => simp [pattern, Fits]
  | unrecognised => simp [pattern, Fits]

/-! ## Patterns in a text -/

/-- Between `front` and `back` stands a word boundary: a character of a word on one side only. -/
def AtWordBoundary (front back : List Char) : Prop :=
  front.getLast?.any isWord ≠ back.head?.any isWord

/-- The pattern of the rule matches all of `word`, which stands between `front` and `back`. -/
def MatchesIn (rule : Rule) (front word back : List Char) : Prop :=
  word ∈ rule.pattern ∧
    (rule = keyword → AtWordBoundary front (word ++ back) ∧ AtWordBoundary (front ++ word) back)

/-- A reserved word is between word boundaries if no other character of a word is next to it. -/
theorem atWordBoundary_iff {front word back : List Char} (h : word ∈ keywordSpellings) :
    AtWordBoundary front (word ++ back) ∧ AtWordBoundary (front ++ word) back ↔
      front.getLast?.any isWord = false ∧ Stops isWord back := by
  have hends : ∀ word ∈ keywordSpellings, word ≠ [] ∧
      word.head?.any isWord = true ∧ word.getLast?.any isWord = true := by decide
  -- inside, reserved words begin and end with characters of words
  obtain ⟨hne, hhead, hlast⟩ := hends word h
  rw [AtWordBoundary, AtWordBoundary, List.head?_append_of_ne_nil _ hne,
    List.getLast?_append_of_ne_nil _ hne, hhead, hlast, stops_iff]
  simp

/-- What a rule takes off a text matches its pattern there. -/
theorem matchesIn_of_fits {rule : Rule} {front word back : List Char}
    (h : rule.Fits front.getLast? word back) : rule.MatchesIn front word back := by
  constructor
  · -- a word that fits here fits by itself; the boundary before it is for reserved words only
    have hback : rule.Fits front.getLast? word ([] ++ back) := h
    have hword : rule.Fits none word ([] ++ []) :=
      hback.replace (fun hrule => by subst hrule; exact h.1.symm) (stops_nil _)
    exact mem_pattern_iff.2 hword
  · -- for a reserved word, the boundaries are those that the rule has checked
    rintro rfl
    exact (atWordBoundary_iff h.2.1).2 ⟨h.1, h.2.2⟩

/-- What matches the pattern of a rule is what the rule takes where the text ends. -/
theorem fits_of_matchesIn {rule : Rule} {front word back : List Char}
    (h : rule.MatchesIn front word back) : rule.Fits front.getLast? word [] := by
  have hword : rule.Fits none word ([] ++ []) := mem_pattern_iff.1 h.1
  -- the rule looks at the boundary in front, which the pattern has too
  have hfront : rule = keyword → front.getLast?.any isWord = false := by
    intro hrule
    subst hrule
    exact ((atWordBoundary_iff hword.2.1).1 (h.2 rfl)).1
  exact hword.replace hfront (stops_nil _)

end Rule

end TokenCensus.Grammar

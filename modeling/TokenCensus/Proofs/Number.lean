import TokenCensus.Proofs.Language

/-!
# The language of numbers

A number is a sign, digits with at most one point, and an exponent, of which only some digits must
be there.  `constant?` reads one with lookahead: behind `1` it tries a point, and then up to three
characters of an exponent before it knows whether there is one.  `Number.Ends` says what must not
follow for the number to be read in full and no further.

## Key results

- `exponentLength_cases`: an exponent is read in full, or there is none of any length
- `mantissa?_append`: a mantissa is read in full
- `constant?_recognises`: the numbers that are read, and what may follow them
-/

namespace TokenCensus.Grammar

open Lexeme

/-- Whether `c` is a sign. -/
def isSign (c : Char) : Bool := c = '+' || c = '-'

/-- An exponent: a mark, an optional sign, and at least one digit. -/
structure Exponent where
  mark : Char
  sign : Option Char
  digits : List Char
  mark_ok : mark = 'e' ∨ mark = 'E'
  sign_ok : ∀ c ∈ sign, isSign c = true
  digits_ne : digits ≠ []
  digits_ok : ∀ c ∈ digits, c.isDigit = true

/-- The characters of an exponent. -/
def Exponent.chars (e : Exponent) : List Char := e.mark :: (e.sign.toList ++ e.digits)

/-- Digits with at most one point, and at least one digit. -/
structure Mantissa where
  whole : List Char
  /-- The digits behind the point, if there is a point. -/
  fraction : Option (List Char)
  whole_ok : ∀ c ∈ whole, c.isDigit = true
  fraction_ok : ∀ digits ∈ fraction, ∀ c ∈ digits, c.isDigit = true
  some_digit : whole ≠ [] ∨ ∃ digits ∈ fraction, digits ≠ []

/-- The characters of a mantissa. -/
def Mantissa.chars (m : Mantissa) : List Char := m.whole ++ m.fraction.elim [] ('.' :: ·)

/-- A number: an optional sign, a mantissa and an optional exponent. -/
structure Number where
  sign : Option Char
  mantissa : Mantissa
  exponent : Option Exponent
  sign_ok : ∀ c ∈ sign, isSign c = true

/-- The characters of a number. -/
def Number.chars (n : Number) : List Char :=
  n.sign.toList ++ (n.mantissa.chars ++ n.exponent.elim [] Exponent.chars)

/-- `rest` continues neither the digits of a mantissa nor, where the point may still come, with a
point. -/
def Mantissa.Ends (m : Mantissa) (rest : List Char) : Prop :=
  Stops Char.isDigit rest ∧ (m.fraction = none → Stops (· = '.') rest)

/-- `rest` continues none of the parts of a number that may still come. -/
def Number.Ends (n : Number) (rest : List Char) : Prop :=
  Stops Char.isDigit rest ∧
    (n.exponent = none →
      (n.mantissa.fraction = none → Stops (· = '.') rest) ∧ ∀ e : Exponent, ¬ e.chars <+: rest)

/-! ## Signs -/

theorem not_isDigit_of_isSign {c : Char} (h : isSign c = true) : c.isDigit = false := by
  simp only [isSign, Bool.or_eq_true, decide_eq_true_eq] at h
  rcases h with rfl | rfl <;> decide

theorem isSign_of_isDigit {c : Char} (h : c.isDigit = true) : isSign c = false := by
  cases hs : isSign c with
  | false => rfl
  | true => rw [not_isDigit_of_isSign hs] at h; exact nomatch h

theorem signLength_append {sign : Option Char} {rest : List Char}
    (hsign : ∀ c ∈ sign, isSign c = true) (hrest : sign = none → Stops isSign rest) :
    signLength (sign.toList ++ rest) = sign.toList.length := by
  cases sign with
  -- without a sign, the text must not seem to have one
  | none =>
    have hstops := hrest rfl
    cases rest with
    | nil => rfl
    | cons c cs =>
      rw [stops_cons, isSign] at hstops
      simp [signLength, hstops]
  | some c =>
    have hc := hsign c rfl
    rw [isSign] at hc
    simp [signLength, hc]

/-- A text is an optional sign and what follows it. -/
theorem exists_sign_append (cs : List Char) :
    ∃ (sign : Option Char) (rest : List Char), sign.toList ++ rest = cs ∧
      signLength cs = sign.toList.length ∧ (∀ c ∈ sign, isSign c = true) := by
  cases cs with
  | nil => exact ⟨none, [], rfl, rfl, by simp⟩
  | cons c cs =>
    by_cases hc : isSign c = true
    · refine ⟨some c, cs, rfl, ?_, by simpa using hc⟩
      rw [isSign] at hc
      simp [signLength, hc]
    · refine ⟨none, c :: cs, rfl, ?_, by simp⟩
      rw [isSign] at hc
      simp [signLength, hc]

/-! ## Exponents -/

/-- A digit follows the sign of an exponent, so the sign is read as one. -/
private theorem signLength_digits (e : Exponent) (rest : List Char) :
    signLength (e.sign.toList ++ (e.digits ++ rest)) = e.sign.toList.length := by
  -- without a sign the text starts with a digit, which is none
  refine signLength_append e.sign_ok fun _ => ?_
  obtain ⟨d, ds, hds⟩ := List.exists_cons_of_ne_nil e.digits_ne
  rw [hds, List.cons_append, stops_cons]
  exact isSign_of_isDigit (e.digits_ok d (by simp [hds]))

theorem exponentLength_append (e : Exponent) {rest : List Char} (hrest : Stops Char.isDigit rest) :
    exponentLength (e.chars ++ rest) = e.chars.length := by
  have hrun := runLength_append e.digits_ok hrest
  have hne : e.digits.length ≠ 0 := fun h => e.digits_ne (List.length_eq_zero_iff.1 h)
  simp only [Exponent.chars, List.cons_append, List.append_assoc, exponentLength,
    signLength_digits, List.drop_left, hrun]
  simp [e.mark_ok, hne]
  omega

/-- An exponent is seen even if it goes on. -/
theorem exponentLength_append_ne_zero (e : Exponent) (rest : List Char) :
    exponentLength (e.chars ++ rest) ≠ 0 := by
  -- one digit is enough to be seen
  obtain ⟨d, ds, hds⟩ := List.exists_cons_of_ne_nil e.digits_ne
  have hd := e.digits_ok d (by simp [hds])
  have hrun : runLength Char.isDigit (e.digits ++ rest) ≠ 0 := by
    simp [hds, runLength, hd]
  simp only [Exponent.chars, List.cons_append, List.append_assoc, exponentLength,
    signLength_digits, List.drop_left]
  simp [e.mark_ok, hrun]

/-- Either an exponent is read in full, or the text starts with no exponent, however short. -/
theorem exponentLength_cases (cs : List Char) :
    (exponentLength cs = 0 ∧ ∀ e : Exponent, ¬ e.chars <+: cs) ∨
      ∃ (e : Exponent) (rest : List Char), e.chars ++ rest = cs ∧
        exponentLength cs = e.chars.length ∧ Stops Char.isDigit rest := by
  cases cs with
  | nil => exact .inl ⟨rfl, fun e he => by simp [Exponent.chars] at he⟩
  | cons mark cs =>
    -- sign and digits as the function takes them
    obtain ⟨sign, tail, rfl, hlen, hsign⟩ := exists_sign_append cs
    obtain ⟨digits, rest, rfl, hrun, hdigits, hrest⟩ := exists_run_append Char.isDigit tail
    -- with a mark and a digit they are an exponent
    by_cases h : (mark = 'e' ∨ mark = 'E') ∧ digits ≠ []
    · let e : Exponent := ⟨mark, sign, digits, h.1, hsign, h.2, hdigits⟩
      have happ : e.chars ++ rest = mark :: (sign.toList ++ (digits ++ rest)) := by
        simp [e, Exponent.chars]
      exact .inr ⟨e, rest, happ, by rw [← happ, exponentLength_append e hrest], hrest⟩
    · -- otherwise nothing is read, and an exponent would have been seen
      have hzero : exponentLength (mark :: (sign.toList ++ (digits ++ rest))) = 0 := by
        rw [exponentLength, hlen, List.drop_left, hrun, if_neg]
        simpa [List.length_eq_zero_iff] using h
      refine .inl ⟨hzero, ?_⟩
      intro e he
      obtain ⟨tail, happ⟩ := he
      exact exponentLength_append_ne_zero e tail (happ ▸ hzero)

/-! ## Mantissas -/

/-- A mantissa starts with a digit or with the point. -/
theorem Mantissa.exists_head (m : Mantissa) :
    ∃ c cs, m.chars = c :: cs ∧ (c.isDigit = true ∨ c = '.') := by
  obtain ⟨whole, fraction, hwhole, _, hsome⟩ := m
  cases whole with
  | cons d ds => exact ⟨d, _, rfl, .inl (hwhole d (by simp))⟩
  | nil =>
    obtain ⟨digits, hdigits, -⟩ := hsome.resolve_left (fun h => h rfl)
    obtain rfl := Option.mem_def.1 hdigits
    exact ⟨'.', digits, rfl, .inr rfl⟩

private theorem stops_isDigit_point (cs : List Char) : Stops Char.isDigit ('.' :: cs) :=
  stops_cons.2 (by decide)

/-- What is found is the length of a mantissa that goes on no further. -/
private theorem exists_mantissa_append {cs : List Char} {n : Nat} (h : mantissa? cs = some n) :
    ∃ (m : Mantissa) (rest : List Char), m.chars ++ rest = cs ∧ m.chars.length = n ∧
      m.Ends rest := by
  dsimp only [mantissa?] at h
  obtain ⟨whole, tail, rfl, hrun, hwhole, htail⟩ := exists_run_append Char.isDigit cs
  rw [hrun, List.drop_left] at h
  split at h
  · rename_i cs
    obtain ⟨digits, rest, rfl, hfrac, hdigits, hrest⟩ := exists_run_append Char.isDigit cs
    rw [hfrac] at h
    split at h
    · exact nomatch h
    · rename_i hsome
      -- not both sides are empty, or nothing would have been found
      have hdigit : whole ≠ [] ∨ ∃ ds ∈ some digits, ds ≠ [] := by
        by_cases hw : whole = []
        · refine .inr ⟨digits, rfl, fun hnil => hsome ?_⟩
          rw [hw, hnil, List.length_nil]
        · exact .inl hw
      rw [Option.some.injEq] at h
      refine ⟨⟨whole, some digits, hwhole, by simpa using hdigits, hdigit⟩, rest,
        by simp [Mantissa.chars], ?_, hrest, nofun⟩
      simp only [Mantissa.chars, Option.elim_some, List.length_append, List.length_cons]
      omega
  · rename_i hpoint
    obtain ⟨hlen, hpos⟩ := nonzero?_eq_some_iff.1 h
    have hne : whole ≠ [] := List.length_pos_iff.1 (hlen ▸ hpos)
    refine ⟨⟨whole, none, hwhole, nofun, .inl hne⟩, tail, by simp [Mantissa.chars],
      by simpa [Mantissa.chars] using hlen, htail, fun _ => ?_⟩
    -- what follows the digits is no point
    cases tail with
    | nil => exact stops_nil _
    | cons c tail =>
      rw [stops_cons, decide_eq_false_iff_not]
      intro hc
      exact hpoint tail (by rw [hc])

/-- There is a digit on one of the sides of the point. -/
private theorem length_add_length_ne_zero {whole digits : List Char}
    (h : whole ≠ [] ∨ ∃ ds ∈ some digits, ds ≠ []) : whole.length + digits.length ≠ 0 := by
  rcases h with hwhole | ⟨ds, hds, hne⟩
  · have := List.length_pos_iff.2 hwhole
    omega
  · have := List.length_pos_iff.2 hne
    rw [← Option.some.inj hds] at this
    omega

theorem mantissa?_append (m : Mantissa) {rest : List Char} (hends : m.Ends rest) :
    mantissa? (m.chars ++ rest) = some m.chars.length := by
  obtain ⟨hdigit, hpoint⟩ := hends
  obtain ⟨whole, fraction, hwhole, hfraction, hsome⟩ := m
  dsimp only [mantissa?]
  cases fraction with
  | some digits =>
    -- the point ends the digits before it, and `rest` those behind it
    have hrun := runLength_append hwhole (stops_isDigit_point (digits ++ rest))
    have hfrac := runLength_append (hfraction digits rfl) hdigit
    have hne := length_add_length_ne_zero hsome
    simp only [Mantissa.chars, Option.elim_some, List.append_assoc, List.cons_append, hrun,
      List.drop_left, hfrac, if_neg hne, List.length_append, List.length_cons]
    congr 1
    omega
  | none =>
    have hrun := runLength_append hwhole hdigit
    have hne : whole ≠ [] := hsome.resolve_right (by simp)
    simp only [Mantissa.chars, Option.elim_none, List.append_nil, hrun, List.drop_left]
    split
    · -- there would have to be a point
      simp at hpoint
    · exact nonzero?_eq_some_iff.2 ⟨rfl, List.length_pos_iff.2 hne⟩

/-! ## Numbers -/

/-- Neither a digit nor a point starts an exponent. -/
private theorem Mantissa.ends_exponent (m : Mantissa) (e : Exponent) (rest : List Char) :
    m.Ends (e.chars ++ rest) := by
  rw [Exponent.chars, List.cons_append]
  refine ⟨stops_cons.2 ?_, fun _ => stops_cons.2 ?_⟩
  · -- the mark is a letter
    rcases e.mark_ok with h | h <;> rw [h] <;> decide
  · rcases e.mark_ok with h | h <;> rw [h] <;> decide

private theorem Mantissa.stops_isSign (m : Mantissa) (rest : List Char) :
    Stops isSign (m.chars ++ rest) := by
  obtain ⟨c, cs, hcs, hc⟩ := m.exists_head
  rw [hcs, List.cons_append, stops_cons]
  rcases hc with hdigit | rfl
  · exact isSign_of_isDigit hdigit
  · decide

/-- What ends a number ends its mantissa, which its exponent may stand behind. -/
private theorem Number.mantissa_ends {n : Number} {rest : List Char} (h : n.Ends rest) :
    n.mantissa.Ends (n.exponent.elim [] Exponent.chars ++ rest) := by
  cases he : n.exponent with
  | none => exact ⟨h.1, (h.2 he).1⟩
  | some e => exact n.mantissa.ends_exponent e rest

/-- What is found is the length of a number that goes on no further. -/
private theorem exists_number_append {cs : List Char} {k : Nat} (h : constant? cs = some k) :
    ∃ (n : Number) (rest : List Char), n.chars ++ rest = cs ∧ n.chars.length = k ∧
      n.Ends rest := by
  dsimp only [constant?] at h
  obtain ⟨sign, tail, rfl, hlen, hsign⟩ := exists_sign_append cs
  rw [hlen, List.drop_left, Option.map_eq_some_iff] at h
  obtain ⟨l, hmantissa, rfl⟩ := h
  obtain ⟨m, rest, rfl, rfl, hends⟩ := exists_mantissa_append hmantissa
  -- sign and mantissa are passed by their lengths
  have hdrop : (sign.toList ++ (m.chars ++ rest)).drop (sign.toList.length + m.chars.length) =
      rest := by
    rw [← List.append_assoc, ← List.length_append, List.drop_left]
  rw [hdrop]
  rcases exponentLength_cases rest with ⟨hzero, hno⟩ | ⟨e, rest, rfl, hread, hrest⟩
  · refine ⟨⟨sign, m, none, hsign⟩, rest, by simp [Number.chars], ?_, hends.1,
      fun _ => ⟨hends.2, hno⟩⟩
    simp [Number.chars, hzero]
  · refine ⟨⟨sign, m, some e, hsign⟩, rest, by simp [Number.chars], ?_, hrest, nofun⟩
    simp [Number.chars, hread, Nat.add_assoc]

theorem constant?_append (n : Number) {rest : List Char} (hends : n.Ends rest) :
    constant? (n.chars ++ rest) = some n.chars.length := by
  have hchars : n.chars ++ rest = n.sign.toList ++
      (n.mantissa.chars ++ (n.exponent.elim [] Exponent.chars ++ rest)) := by
    simp [Number.chars]
  have hsign : signLength (n.chars ++ rest) = n.sign.toList.length := by
    rw [hchars]
    -- the mantissa does not start with a sign
    exact signLength_append n.sign_ok fun _ => n.mantissa.stops_isSign _
  have hmantissa := mantissa?_append n.mantissa (n.mantissa_ends hends)
  have hexponent : exponentLength (n.exponent.elim [] Exponent.chars ++ rest) =
      (n.exponent.elim [] Exponent.chars).length := by
    cases he : n.exponent with
    | some e => exact exponentLength_append e hends.1
    | none =>
      -- no exponent has been read, since none starts `rest`
      rcases exponentLength_cases rest with ⟨hzero, -⟩ | ⟨e, tail, happ, -⟩
      · exact hzero
      · exact absurd ⟨tail, happ⟩ ((hends.2 he).2 e)
  dsimp only [constant?]
  rw [hsign, hchars, List.drop_left, hmantissa, Option.map_some, ← List.drop_drop, List.drop_left,
    List.drop_left, hexponent]
  simp [Number.chars, Nat.add_assoc]

theorem constant?_recognises :
    Recognises constant? fun lexeme rest => ∃ n : Number, n.chars = lexeme ∧ n.Ends rest := by
  apply Recognises.intro
  · intro cs k h
    obtain ⟨n, rest, happ, hlength, hends⟩ := exists_number_append h
    exact ⟨n.chars, rest, happ, hlength, n, rfl, hends⟩
  · intro lexeme rest h
    obtain ⟨n, rfl, hends⟩ := h
    exact constant?_append n hends

end TokenCensus.Grammar

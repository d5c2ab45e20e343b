/-!
# Writing that can be read back

Values can be written one behind the other and read back if each of them can be cut off the front
of any text in one way only.  Such a way of writing is *self-delimiting*.  It is so when the written
values are closed by a mark that does not occur in them, and it stays so when what is written is put
together.

## Key results

- `selfDelimiting_of_mark`: a mark that does not occur before closes what is written
- `selfDelimiting_repr`: numbers closed by what is no digit
- `SelfDelimiting.append`, `SelfDelimiting.append_dependent`: pairs
- `SelfDelimiting.intercalate`, `SelfDelimiting.eq_of_flatMap`: lists with separators, and texts that
  hold nothing but values
-/

namespace TokenCensus

variable {α β : Type} {P : α → Prop} {Q : β → Prop}
variable {code : α → List Char} {code' : β → List Char}

/-- `code` writes the values that satisfy `P` in such a way that each can be cut off the front of
a text in one way only. -/
def SelfDelimiting (P : α → Prop) (code : α → List Char) : Prop :=
  ∀ x y rest rest', P x → P y → code x ++ rest = code y ++ rest' → x = y ∧ rest = rest'

/-- The first mark of a text tells what stands before it. -/
theorem eq_of_append_mark {mark : Char} {xs ys rest rest' : List Char} (hxs : mark ∉ xs)
    (hys : mark ∉ ys) (h : xs ++ mark :: rest = ys ++ mark :: rest') : xs = ys ∧ rest = rest' := by
  induction xs generalizing ys with
  | nil =>
    cases ys with
    | nil => exact ⟨rfl, (List.cons.inj h).2⟩
    | cons y ys =>
      obtain ⟨rfl, -⟩ := List.cons.inj h
      -- the mark would stand before itself in the second text
      exact absurd List.mem_cons_self hys
  | cons x xs ih =>
    cases ys with
    | nil =>
      obtain ⟨rfl, -⟩ := List.cons.inj h
      -- and here in the first
      exact absurd List.mem_cons_self hxs
    | cons y ys =>
      obtain ⟨rfl, htail⟩ := List.cons.inj h
      rw [List.mem_cons, not_or] at hxs hys
      obtain ⟨rfl, hrest⟩ := ih hxs.2 hys.2 htail
      exact ⟨rfl, hrest⟩

/-- A mark that does not occur before closes what is written. -/
theorem selfDelimiting_of_mark {mark : Char} (hmark : ∀ x, P x → mark ∉ code x)
    (hinj : ∀ x y, P x → P y → code x = code y → x = y) :
    SelfDelimiting P fun x => code x ++ [mark] := by
  intro x y rest rest' hx hy h
  rw [List.append_assoc, List.append_assoc] at h
  obtain ⟨hcode, hrest⟩ := eq_of_append_mark (hmark x hx) (hmark y hy) h
  exact ⟨hinj x y hx hy hcode, hrest⟩

/-- Decimals are closed by any character that is no digit. -/
theorem selfDelimiting_repr {mark : Char} (hmark : mark.isDigit = false) :
    SelfDelimiting (fun _ : Nat => True) fun n => n.repr.toList ++ [mark] := by
  apply selfDelimiting_of_mark
  · intro n _ hmem
    rw [Nat.toList_repr] at hmem
    have hdigit := Nat.isDigit_of_mem_toDigits (by decide) (by decide) hmem
    rw [hmark] at hdigit
    -- a number is written in digits only
    exact nomatch hdigit
  · intro n m _ _ h
    rw [Nat.toList_repr, Nat.toList_repr] at h
    -- the digits of a number give the number
    have hread := congrArg (Nat.ofDigitChars 10 · 0) h
    simpa using hread

namespace SelfDelimiting

/-- Fewer values are written in the same way. -/
theorem mono {P' : α → Prop} (h : SelfDelimiting P code) (hP : ∀ x, P' x → P x) :
    SelfDelimiting P' code :=
  fun x y rest rest' hx hy => h x y rest rest' (hP x hx) (hP y hy)

/-- Values that are told apart by what is written of them. -/
theorem comap (h : SelfDelimiting P code) {f : β → α} (hf : ∀ x y, f x = f y → x = y) :
    SelfDelimiting (fun x => P (f x)) fun x => code (f x) := by
  intro x y rest rest' hx hy heq
  obtain ⟨hxy, hrest⟩ := h (f x) (f y) rest rest' hx hy heq
  exact ⟨hf x y hxy, hrest⟩

/-- The same text may stand in front of each value. -/
theorem const_append (h : SelfDelimiting P code) (front : List Char) :
    SelfDelimiting P fun x => front ++ code x := by
  intro x y rest rest' hx hy heq
  rw [List.append_assoc, List.append_assoc] at heq
  exact h x y rest rest' hx hy (List.append_cancel_left heq)

/-- The same text may stand behind each value. -/
theorem append_const (h : SelfDelimiting P code) (back : List Char) :
    SelfDelimiting P fun x => code x ++ back := by
  intro x y rest rest' hx hy heq
  rw [List.append_assoc, List.append_assoc] at heq
  obtain ⟨hxy, hback⟩ := h x y _ _ hx hy heq
  exact ⟨hxy, List.append_cancel_left hback⟩

/-- Two values, one behind the other.  The first one tells how the second is written. -/
theorem append_dependent {Q : α → β → Prop} {code' : α → β → List Char} (h : SelfDelimiting P code)
    (h' : ∀ a, SelfDelimiting (Q a) (code' a)) :
    SelfDelimiting (fun x : α × β => P x.1 ∧ Q x.1 x.2) fun x => code x.1 ++ code' x.1 x.2 := by
  intro x y rest rest' hx hy heq
  obtain ⟨a, b⟩ := x
  obtain ⟨a', b'⟩ := y
  rw [List.append_assoc, List.append_assoc] at heq
  obtain ⟨rfl, hback⟩ := h a a' _ _ hx.1 hy.1 heq
  -- the first values are the same, so the second ones are written in the same way
  obtain ⟨rfl, hrest⟩ := h' a b b' rest rest' hx.2 hy.2 hback
  exact ⟨rfl, hrest⟩

/-- Two values, one behind the other. -/
theorem append (h : SelfDelimiting P code) (h' : SelfDelimiting Q code') :
    SelfDelimiting (fun x : α × β => P x.1 ∧ Q x.2) fun x => code x.1 ++ code' x.2 :=
  h.append_dependent fun _ => h'

/-- A text that holds nothing but values, one behind the other, gives them back. -/
theorem eq_of_flatMap (h : SelfDelimiting P code) (hne : ∀ x, code x ≠ []) {xs ys : List α}
    (hxs : ∀ x ∈ xs, P x) (hys : ∀ y ∈ ys, P y) (heq : xs.flatMap code = ys.flatMap code) :
    xs = ys := by
  induction xs generalizing ys with
  | nil =>
    cases ys with
    | nil => rfl
    | cons y ys =>
      -- a value is never written as nothing, so no text is both over and goes on
      rw [List.flatMap_cons] at heq
      exact absurd (List.append_eq_nil_iff.1 heq.symm).1 (hne y)
  | cons x xs ih =>
    cases ys with
    | nil =>
      rw [List.flatMap_cons] at heq
      exact absurd (List.append_eq_nil_iff.1 heq).1 (hne x)
    | cons y ys =>
      rw [List.forall_mem_cons] at hxs hys
      rw [List.flatMap_cons, List.flatMap_cons] at heq
      obtain ⟨rfl, hback⟩ := h x y _ _ hxs.1 hys.1 heq
      rw [ih hxs.2 hys.2 hback]

/-- A list of values, each behind a separator, and then what closes the list.  The next character
tells whether there is another value. -/
theorem flatMap (h : SelfDelimiting P code) {sep stop : Char} (hne : sep ≠ stop) :
    SelfDelimiting (fun xs : List α => ∀ x ∈ xs, P x)
      fun xs => (xs.flatMap fun x => sep :: code x) ++ [stop] := by
  intro xs
  induction xs with
  | nil =>
    intro ys rest rest' _ _ heq
    cases ys with
    | nil => exact ⟨rfl, (List.cons.inj heq).2⟩
    | cons y ys => exact absurd (List.cons.inj heq).1.symm hne
  | cons x xs ih =>
    intro ys rest rest' hxs hys heq
    cases ys with
    | nil => exact absurd (List.cons.inj heq).1 hne
    | cons y ys =>
      simp only [List.flatMap_cons, List.cons_append, List.append_assoc] at heq
      -- behind the same separator stands the same value, and the others are read in turn
      obtain ⟨rfl, hback⟩ := h x y _ _ (hxs x List.mem_cons_self) (hys y List.mem_cons_self)
        (List.cons.inj heq).2
      obtain ⟨rfl, hrest⟩ := ih ys rest rest' (fun z hz => hxs z (List.mem_cons_of_mem _ hz))
        (fun z hz => hys z (List.mem_cons_of_mem _ hz)) (by simpa using hback)
      exact ⟨rfl, hrest⟩

/-- Separators between values stand behind the first and before the others. -/
theorem intercalate_cons (sep xs : List Char) (xss : List (List Char)) :
    sep.intercalate (xs :: xss) = xs ++ xss.flatMap fun ys => sep ++ ys := by
  induction xss generalizing xs with
  | nil => simp
  | cons ys xss ih =>
    -- the values behind the first are a list of their own
    rw [List.intercalate_cons_cons, ih ys]
    simp

/-- A list of at least one value, with separators between the values. -/
theorem intercalate (h : SelfDelimiting P code) {sep stop : Char} (hne : sep ≠ stop)
    (gap : List Char) :
    SelfDelimiting (fun xs : List α => xs ≠ [] ∧ ∀ x ∈ xs, P x)
      fun xs => (sep :: gap).intercalate (xs.map code) ++ [stop] := by
  -- the first value, and then the others behind their separators
  have hpair := h.append ((h.const_append gap).flatMap hne)
  intro xs ys rest rest' hxs hys heq
  cases xs with
  | nil => exact absurd rfl hxs.1
  | cons x xs =>
    cases ys with
    | nil => exact absurd rfl hys.1
    | cons y ys =>
      simp only [List.map_cons, intercalate_cons, List.flatMap_map, List.cons_append] at heq
      obtain ⟨hx, hxs⟩ := List.forall_mem_cons.1 hxs.2
      obtain ⟨hy, hys⟩ := List.forall_mem_cons.1 hys.2
      obtain ⟨hsame, hrest⟩ := hpair (x, xs) (y, ys) rest rest' ⟨hx, hxs⟩ ⟨hy, hys⟩
        (by simpa using heq)
      obtain ⟨rfl, rfl⟩ := Prod.mk.inj hsame
      exact ⟨rfl, hrest⟩

end SelfDelimiting

end TokenCensus

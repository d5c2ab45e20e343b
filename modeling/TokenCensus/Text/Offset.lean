/-!
# Byte offsets and columns

A place in a text is named by its byte offset: the number of bytes that the UTF-8 encoding of
everything before it takes up.  Columns, which people read, count characters instead.  This file
holds the two counts and the way from the first to the second.

## Key results

- `byteLength_append`: offsets add up along a text
- `utf8ByteSize_ofList`: `byteLength` is the encoded size of the string with those characters
- `append_inj_of_byteLength`: an offset splits a text in one way only
- `byteLength_pos`: no character is empty, so offsets tell the characters apart
-/

namespace TokenCensus.Text

/-- The number of bytes of the UTF-8 encoding of `cs`. -/
def byteLength (cs : List Char) : Nat :=
  cs.foldr (fun c bytes => c.utf8Size + bytes) 0

@[simp] theorem byteLength_nil : byteLength [] = 0 := rfl

@[simp] theorem byteLength_cons (c : Char) (cs : List Char) :
    byteLength (c :: cs) = c.utf8Size + byteLength cs := rfl

@[simp] theorem byteLength_append (cs ds : List Char) :
    byteLength (cs ++ ds) = byteLength cs + byteLength ds := by
  induction cs with
  | nil => rw [List.nil_append, byteLength_nil, Nat.zero_add]
  | cons c cs ih => rw [List.cons_append, byteLength_cons, byteLength_cons, ih, Nat.add_assoc]

theorem byteLength_pos {cs : List Char} (h : cs ≠ []) : 0 < byteLength cs := by
  cases cs with
  | nil => exact absurd rfl h
  | cons c cs =>
    have := c.utf8Size_pos
    rw [byteLength_cons]
    omega

theorem ne_nil_of_byteLength_pos {cs : List Char} (h : 0 < byteLength cs) : cs ≠ [] := by
  intro hnil
  simp [hnil] at h

/-- `byteLength` agrees with the size of the encoded string. -/
theorem utf8ByteSize_ofList (cs : List Char) :
    (String.ofList cs).utf8ByteSize = byteLength cs := by
  induction cs with
  | nil => simp
  | cons c cs ih =>
    -- sizes are known of singletons and of strings put together
    have hsplit : String.ofList (c :: cs) = String.singleton c ++ String.ofList cs := by
      rw [← String.toList_inj]; simp
    rw [hsplit, String.utf8ByteSize_append, String.utf8ByteSize_singleton, ih, byteLength_cons]

theorem byteLength_toList (text : String) : byteLength text.toList = text.utf8ByteSize := by
  rw [← utf8ByteSize_ofList, String.ofList_toList]

/-- What a longer text starts with, and fits into the known part, the known part starts with. -/
theorem isPrefix_of_byteLength_le {xs rest more : List Char} (h : xs <+: rest ++ more)
    (hle : byteLength xs ≤ byteLength rest) : xs <+: rest := by
  cases List.prefix_or_prefix_of_prefix h (List.prefix_append rest more) with
  | inl hpre => exact hpre
  | inr hpre =>
    -- then nothing of `xs` is left beyond `rest`
    obtain ⟨tail, rfl⟩ := hpre
    rw [byteLength_append] at hle
    by_cases hnil : tail = []
    · simp [hnil]
    · have := byteLength_pos hnil
      omega

/-- A text can be split at an offset in one way only. -/
theorem append_inj_of_byteLength {front back front' back' : List Char}
    (h : front ++ back = front' ++ back') (hlength : byteLength front = byteLength front') :
    front = front' ∧ back = back' := by
  have hpre : front <+: front' :=
    isPrefix_of_byteLength_le ⟨back, h⟩ (Nat.le_of_eq hlength)
  obtain ⟨tail, rfl⟩ := hpre
  by_cases hnil : tail = []
  · subst hnil
    simpa using h
  · have := byteLength_pos hnil
    rw [byteLength_append] at hlength
    omega

/-- The number of characters of `cs` that take up exactly the first `offset` bytes, added to
`column`; none when `offset` lies inside a character or beyond the end. -/
def columnFrom? (column : Nat) : Nat → List Char → Option Nat
  | 0, _ => some column
  | _ + 1, [] => none
  | offset + 1, c :: cs =>
    -- bytes are left, but not all those of the next character
    if offset + 1 < c.utf8Size then none
    else columnFrom? (column + 1) (offset + 1 - c.utf8Size) cs

/-- The column, in characters, of the byte `offset` of `cs`. -/
def columnAt? (cs : List Char) (offset : Nat) : Option Nat :=
  columnFrom? 0 offset cs

end TokenCensus.Text

import TokenCensus.Grammar.Lexeme
import TokenCensus.Text.Utf8

/-!
# Words, byte by byte

The characters of words are ASCII, so whether a text ends or starts with one of them can be seen in
its last or first byte: in UTF-8 the bytes of all other characters lie outside ASCII.

## Key results

- `le_toNat_of_mem_utf8EncodeChar`: no byte of a character beyond ASCII is an ASCII code
- `isCodeOf_of_mem_utf8EncodeChar`: a byte is the code of its character, or of none
- `head?_encode_any`, `getLast?_encode_any`: the first and the last byte of a text
-/

namespace TokenCensus

open Grammar (isWord)

theorem Text.Utf8.encode_ofList (cs : List Char) :
    encode (String.ofList cs) = cs.flatMap String.utf8EncodeChar :=
  List.toList_data_toByteArray

theorem Text.Utf8.encode_eq (text : String) :
    encode text = text.toList.flatMap String.utf8EncodeChar := by
  rw [← encode_ofList, String.ofList_toList]

namespace Grammar

/-- Whether `b` is the ASCII code of a character of `p`. -/
def isCodeOf (p : Char → Bool) (b : UInt8) : Bool := b.toNat < 128 && p (Char.ofNat b.toNat)

/-- Whether `b` is the ASCII code of a character that can stand in a word. -/
def isWordByte (b : UInt8) : Bool := b.toNat < 128 && isWord (Char.ofNat b.toNat)

/-! ## One character -/

theorem toNat_lt_of_isWord {c : Char} (h : isWord c = true) : c.toNat < 128 := by
  -- all characters up to one that is ASCII are ASCII
  have hle : ∀ d : Char, c.val ≤ d.val → d.toNat < 128 → c.toNat < 128 :=
    fun d hcd hd => Nat.lt_of_le_of_lt (UInt32.le_iff_toNat_le.1 hcd) hd
  have hword : (c.isUpper || c.isLower || c.isDigit || decide (c = '_')) = true := h
  simp only [Bool.or_eq_true, decide_eq_true_eq] at hword
  rcases hword with ((hupper | hlower) | hdigit) | rfl
  · exact hle 'Z' (of_decide_eq_true hupper).2 (by decide)
  · exact hle 'z' (of_decide_eq_true (Bool.and_eq_true_iff.1 hlower).2) (by decide)
  · exact hle '9' (of_decide_eq_true (Bool.and_eq_true_iff.1 hdigit).2) (by decide)
  · decide

/-- No byte of a character beyond ASCII is an ASCII code. -/
theorem le_toNat_of_mem_utf8EncodeChar {c : Char} (h : ¬ c.val.toNat ≤ 0x7f) :
    ∀ b ∈ String.utf8EncodeChar c, 128 ≤ b.toNat := by
  intro b hb
  have hbyte : ∀ n, 128 ≤ n → n < 256 → 128 ≤ (UInt8.ofNat n).toNat := by
    intro n hle hlt
    rw [UInt8.toNat_ofNat', Nat.mod_eq_of_lt hlt]
    exact hle
  -- each byte is a mark of at least `0x80` and a few bits of the character
  rw [String.utf8EncodeChar, if_neg h] at hb
  split at hb
  · simp only [List.mem_cons, List.not_mem_nil, or_false] at hb
    rcases hb with rfl | rfl <;> apply hbyte <;> omega
  · split at hb
    · simp only [List.mem_cons, List.not_mem_nil, or_false] at hb
      rcases hb with rfl | rfl | rfl <;> apply hbyte <;> omega
    · simp only [List.mem_cons, List.not_mem_nil, or_false] at hb
      rcases hb with rfl | rfl | rfl | rfl <;> apply hbyte <;> omega

theorem isCodeOf_eq_of_ascii {p : Char → Bool} {c : Char} (h : c.val.toNat ≤ 0x7f) :
    isCodeOf p (.ofNat c.val.toNat) = p c := by
  have htoNat : (UInt8.ofNat c.val.toNat).toNat = c.toNat := by
    rw [UInt8.toNat_ofNat']
    exact Nat.mod_eq_of_lt (by omega)
  have hlt : c.toNat < 128 := Nat.lt_succ_of_le h
  rw [isCodeOf, htoNat]
  simp [hlt]

/-- The bytes of a character tell whether it is one of `p`, if those are ASCII. -/
theorem isCodeOf_of_mem_utf8EncodeChar {p : Char → Bool} (hp : ∀ c, p c = true → c.toNat < 128)
    {c : Char} : ∀ b ∈ String.utf8EncodeChar c, isCodeOf p b = p c := by
  intro b hb
  by_cases h : c.val.toNat ≤ 0x7f
  · -- an ASCII character is its own byte
    rw [String.utf8EncodeChar, if_pos h, List.mem_singleton] at hb
    rw [hb, isCodeOf_eq_of_ascii h]
  · -- any other character has no byte in ASCII, and is none of `p`
    have hbyte := le_toNat_of_mem_utf8EncodeChar h b hb
    have hchar : p c = false := by
      refine Bool.eq_false_iff.2 fun hc => ?_
      have hlt := hp c hc
      rw [← Char.toNat_val] at hlt
      omega
    have hnot : ¬ b.toNat < 128 := by omega
    simp [isCodeOf, hnot, hchar]

/-! ## A text -/

/-- A text ends with a character of `p` if its last byte is the code of one. -/
theorem getLast?_encode_any_isCodeOf {p : Char → Bool} (hp : ∀ c, p c = true → c.toNat < 128)
    (text : String) :
    (Text.Utf8.encode text).getLast?.any (isCodeOf p) = text.toList.getLast?.any p := by
  rw [Text.Utf8.encode_eq]
  cases List.eq_nil_or_concat text.toList with
  | inl hnil => rw [hnil]; rfl
  | inr hconcat =>
    -- the last byte of the text is the last byte of its last character
    obtain ⟨cs, c, hcs⟩ := hconcat
    have hne := String.utf8EncodeChar_ne_nil (c := c)
    have hb := isCodeOf_of_mem_utf8EncodeChar hp _ (List.getLast_mem hne)
    rw [hcs, List.concat_eq_append, List.flatMap_append, List.flatMap_singleton,
      List.getLast?_append, List.getLast?_eq_some_getLast hne, List.getLast?_append,
      List.getLast?_singleton]
    exact hb

/-- A text starts with a character of words if its first byte is the code of one. -/
theorem head?_encode_any (text : String) :
    (Text.Utf8.encode text).head?.any isWordByte = text.toList.head?.any isWord := by
  rw [Text.Utf8.encode_eq]
  cases text.toList with
  | nil => rfl
  | cons c cs =>
    -- the first byte of the text is the first byte of its first character
    obtain ⟨b, bs, hbytes⟩ := List.exists_cons_of_ne_nil (String.utf8EncodeChar_ne_nil (c := c))
    have hb : isWordByte b = isWord c :=
      isCodeOf_of_mem_utf8EncodeChar (fun _ => toNat_lt_of_isWord) b (hbytes ▸ List.mem_cons_self)
    simp [hbytes, hb]

/-- A text ends with a character of words if its last byte is the code of one. -/
theorem getLast?_encode_any (text : String) :
    (Text.Utf8.encode text).getLast?.any isWordByte = text.toList.getLast?.any isWord :=
  getLast?_encode_any_isCodeOf (fun _ => toNat_lt_of_isWord) text

end Grammar

end TokenCensus

import Mathlib.Data.Nat.Find
import TokenCensus.Proofs.WordByte

/-!
# What is decoded and what is replaced

The decoder knows nothing of characters but the bounds of their bytes.  These bounds are right: the
byte sequences that it reads as a character are the encodings of that character and no others.  So
the text of any bytes can be told without the decoder, by what stands at their front.  That is
either the encoding of a character, or the longest start of one, which is replaced as a whole.

## Key results

- `reads_iff`: what the decoder reads as a character is its encoding
- `decode_encode`: a text is decoded from its bytes
- `replaces_iff`: every maximal subpart that is no character becomes one replacement
-/

namespace TokenCensus.Text.Utf8

/-! ## The bytes of one character -/

/-- `bytes` end the character that `s` has begun, and it is `c`. -/
inductive Sequence.Completes : Sequence → List UInt8 → Char → Prop where
  | last {bits low high b c} (hlow : low ≤ b) (hhigh : b ≤ high)
    (hc : c = Char.ofNat (bits * 64 + (b.toNat - 0x80))) : Completes ⟨bits, low, high, 0⟩ [b] c
  | next {bits low high more b bs c} (hlow : low ≤ b) (hhigh : b ≤ high)
    (hrest : Completes ⟨bits * 64 + (b.toNat - 0x80), 0x80, 0xbf, more⟩ bs c) :
    Completes ⟨bits, low, high, more + 1⟩ (b :: bs) c

/-- `bytes` are read as the character `c`. -/
inductive Reads : List UInt8 → Char → Prop where
  | single {b c} (hlead : Lead.ofByte b = .single c) : Reads [b] c
  | opens {b s bs c} (hlead : Lead.ofByte b = .opens s) (hrest : s.Completes bs c) :
    Reads (b :: bs) c

theorem Sequence.completes_zero_iff {bits : Nat} {low high : UInt8} {bytes : List UInt8}
    {c : Char} :
    Completes ⟨bits, low, high, 0⟩ bytes c ↔
      ∃ b, low ≤ b ∧ b ≤ high ∧ bytes = [b] ∧ c = Char.ofNat (bits * 64 + (b.toNat - 0x80)) := by
  constructor
  · rintro ⟨hlow, hhigh, hc⟩
    exact ⟨_, hlow, hhigh, rfl, hc⟩
  · rintro ⟨b, hlow, hhigh, rfl, hc⟩
    exact .last hlow hhigh hc

theorem Sequence.completes_succ_iff {bits more : Nat} {low high : UInt8} {bytes : List UInt8}
    {c : Char} :
    Completes ⟨bits, low, high, more + 1⟩ bytes c ↔
      ∃ b rest, low ≤ b ∧ b ≤ high ∧ bytes = b :: rest ∧
        Completes ⟨bits * 64 + (b.toNat - 0x80), 0x80, 0xbf, more⟩ rest c := by
  constructor
  · rintro (_ | ⟨hlow, hhigh, hrest⟩)
    exact ⟨_, _, hlow, hhigh, rfl, hrest⟩
  · rintro ⟨b, rest, hlow, hhigh, rfl, hrest⟩
    exact .next hlow hhigh hrest

/-- What has been read of a character decides how the rest is read. -/
theorem Reads.completes {b : UInt8} {s : Sequence} {bytes : List UInt8} {c : Char}
    (h : Reads (b :: bytes) c) (hlead : Lead.ofByte b = .opens s) : s.Completes bytes c := by
  cases h with
  | single hlead' => rw [hlead] at hlead'; cases hlead'
  | opens hlead' hrest =>
    rw [hlead, Lead.opens.injEq] at hlead'
    rwa [hlead']

theorem not_reads_of_stray {b : UInt8} (hlead : Lead.ofByte b = .stray) (bytes : List UInt8)
    (c : Char) : ¬ Reads (b :: bytes) c := by
  rintro (hlead' | ⟨hlead', -⟩) <;> rw [hlead] at hlead' <;> cases hlead'

theorem Lead.ofByte_eq_single_iff {b : UInt8} {c : Char} :
    ofByte b = .single c ↔ b < 0x80 ∧ c = Char.ofNat b.toNat := by
  grind [ofByte]

theorem Lead.ofByte_of_two {b : UInt8} (hlow : 0xc2 ≤ b.toNat) (hhigh : b.toNat < 0xe0) :
    ofByte b = .opens ⟨b.toNat - 0xc0, 0x80, 0xbf, 0⟩ := by
  grind [ofByte, UInt8.lt_iff_toNat_lt]

theorem Lead.ofByte_of_three {b : UInt8} (hlow : 0xe0 ≤ b.toNat) (hhigh : b.toNat < 0xf0) :
    ofByte b = .opens ⟨b.toNat - 0xe0, if b = 0xe0 then 0xa0 else 0x80,
      if b = 0xed then 0x9f else 0xbf, 1⟩ := by
  grind [ofByte, UInt8.lt_iff_toNat_lt]

theorem Lead.ofByte_of_four {b : UInt8} (hlow : 0xf0 ≤ b.toNat) (hhigh : b.toNat < 0xf5) :
    ofByte b = .opens ⟨b.toNat - 0xf0, if b = 0xf0 then 0x90 else 0x80,
      if b = 0xf4 then 0x8f else 0xbf, 2⟩ := by
  grind [ofByte, UInt8.lt_iff_toNat_lt]

/-- A byte that opens a character opens one of two, three or four bytes. -/
theorem Lead.toNat_of_ofByte_eq_opens {b : UInt8} {s : Sequence} (h : ofByte b = .opens s) :
    0xc2 ≤ b.toNat ∧ b.toNat < 0xf5 := by
  grind [ofByte, UInt8.lt_iff_toNat_lt]

/-- The bounds of a continuation byte, as numbers. -/
theorem continuation_iff {b : UInt8} :
    0x80 ≤ b ∧ b ≤ 0xbf ↔ 0x80 ≤ b.toNat ∧ b.toNat ≤ 0xbf := by
  simp only [UInt8.le_iff_toNat_le, UInt8.toNat_ofNat, Nat.reducePow, Nat.reduceMod]

/-- The bounds of a second byte that are tighter behind two of the leads. -/
theorem second_iff {b b₁ first last low high : UInt8} (hlow : 0x80 ≤ low) (hhigh : high ≤ 0xbf) :
    (if b = first then low else 0x80) ≤ b₁ ∧ b₁ ≤ (if b = last then high else 0xbf) ↔
      0x80 ≤ b₁.toNat ∧ b₁.toNat ≤ 0xbf ∧ (b.toNat = first.toNat → low.toNat ≤ b₁.toNat) ∧
        (b.toNat = last.toNat → b₁.toNat ≤ high.toNat) := by
  -- as numbers, the bounds are tighter exactly behind the two leads
  simp only [UInt8.le_iff_toNat_le, ← UInt8.toNat_inj, apply_ite UInt8.toNat, UInt8.toNat_ofNat,
    Nat.reducePow, Nat.reduceMod] at hlow hhigh ⊢
  split <;> split <;> omega

/-- The bounds of the second byte of three. -/
theorem second_of_three_iff {b b₁ : UInt8} :
    (if b = 0xe0 then 0xa0 else 0x80) ≤ b₁ ∧ b₁ ≤ (if b = 0xed then 0x9f else 0xbf) ↔
      0x80 ≤ b₁.toNat ∧ b₁.toNat ≤ 0xbf ∧ (b.toNat = 0xe0 → 0xa0 ≤ b₁.toNat) ∧
        (b.toNat = 0xed → b₁.toNat ≤ 0x9f) :=
  second_iff (by decide) (by decide)

/-- The bounds of the second byte of four. -/
theorem second_of_four_iff {b b₁ : UInt8} :
    (if b = 0xf0 then 0x90 else 0x80) ≤ b₁ ∧ b₁ ≤ (if b = 0xf4 then 0x8f else 0xbf) ↔
      0x80 ≤ b₁.toNat ∧ b₁.toNat ≤ 0xbf ∧ (b.toNat = 0xf0 → 0x90 ≤ b₁.toNat) ∧
        (b.toNat = 0xf4 → b₁.toNat ≤ 0x8f) :=
  second_iff (by decide) (by decide)

theorem exists_toNat_eq {n : Nat} (h : n < 256) : ∃ b : UInt8, b.toNat = n :=
  ⟨UInt8.ofNat n, by rw [UInt8.toNat_ofNat', Nat.mod_eq_of_lt h]⟩

theorem ofNat_eq_of_eq_toNat {n : Nat} {b : UInt8} (h : n = b.toNat) : UInt8.ofNat n = b := by
  rw [h, UInt8.ofNat_toNat]

theorem val_toNat_of_eq_ofNat {c : Char} {n : Nat} (h : c = Char.ofNat n) (hn : n.isValidChar) :
    c.val.toNat = n := by
  rw [h, Char.ofNat, dif_pos hn]
  rfl

theorem eq_ofNat_of_eq_val_toNat {c : Char} {n : Nat} (h : n = c.val.toNat) : c = Char.ofNat n := by
  rw [h, Char.toNat_val, Char.ofNat_toNat]

/-! ## One byte -/

theorem utf8EncodeChar_of_one {c : Char} {b : UInt8} (h : Lead.ofByte b = .single c) :
    [b] = String.utf8EncodeChar c := by
  obtain ⟨hascii, hc⟩ := Lead.ofByte_eq_single_iff.1 h
  have hb : b.toNat < 0x80 := UInt8.lt_iff_toNat_lt.1 hascii
  -- the character is an ASCII character, which is encoded as its own byte
  have hv := val_toNat_of_eq_ofNat hc (.inl (by omega))
  rw [String.utf8EncodeChar, hv, if_pos (by omega), UInt8.ofNat_toNat]

theorem exists_reads_one {c : Char} (hhigh : c.val.toNat < 0x80) : ∃ bytes, Reads bytes c := by
  obtain ⟨b, hb⟩ := exists_toNat_eq (by omega : c.val.toNat < 256)
  have hascii : b < 0x80 := UInt8.lt_iff_toNat_lt.2 (by rw [hb]; exact hhigh)
  exact ⟨[b], .single (Lead.ofByte_eq_single_iff.2 ⟨hascii, eq_ofNat_of_eq_val_toNat hb⟩)⟩

/-! ## Two bytes -/

theorem utf8EncodeChar_of_two {c : Char} {b b₁ : UInt8} (hlow : 0xc2 ≤ b.toNat)
    (hhigh : b.toNat < 0xe0) (h₁ : 0x80 ≤ b₁.toNat ∧ b₁.toNat ≤ 0xbf)
    (hc : c.val.toNat = (b.toNat - 0xc0) * 64 + (b₁.toNat - 0x80)) :
    [b, b₁] = String.utf8EncodeChar c := by
  -- of the encodings by length, that of two bytes
  rw [String.utf8EncodeChar, if_neg (by omega), if_pos (by omega),
    ofNat_eq_of_eq_toNat (by omega : c.val.toNat / 64 % 32 + 0xc0 = b.toNat),
    ofNat_eq_of_eq_toNat (by omega : c.val.toNat % 64 + 0x80 = b₁.toNat)]

theorem Sequence.Completes.eq_of_two {b : UInt8} {bytes : List UInt8} {c : Char}
    (hlow : 0xc2 ≤ b.toNat) (hhigh : b.toNat < 0xe0)
    (h : Completes ⟨b.toNat - 0xc0, 0x80, 0xbf, 0⟩ bytes c) :
    b :: bytes = String.utf8EncodeChar c := by
  obtain ⟨b₁, hlow₁, hhigh₁, rfl, hc⟩ := completes_zero_iff.1 h
  have h₁ := continuation_iff.1 ⟨hlow₁, hhigh₁⟩
  exact utf8EncodeChar_of_two hlow hhigh h₁ (val_toNat_of_eq_ofNat hc (.inl (by omega)))

theorem exists_reads_two {c : Char} (hlow : 0x80 ≤ c.val.toNat) (hhigh : c.val.toNat < 0x800) :
    ∃ bytes, Reads bytes c := by
  obtain ⟨b, hb⟩ := exists_toNat_eq (by omega : c.val.toNat / 64 + 0xc0 < 256)
  obtain ⟨b₁, hb₁⟩ := exists_toNat_eq (by omega : c.val.toNat % 64 + 0x80 < 256)
  obtain ⟨hlow₁, hhigh₁⟩ := continuation_iff.2
    (by omega : 0x80 ≤ b₁.toNat ∧ b₁.toNat ≤ 0xbf)
  exact ⟨[b, b₁], .opens (Lead.ofByte_of_two (by omega) (by omega))
    (.last hlow₁ hhigh₁ (eq_ofNat_of_eq_val_toNat (by omega)))⟩

/-! ## Three bytes -/

theorem utf8EncodeChar_of_three {c : Char} {b b₁ b₂ : UInt8} (hlow : 0xe0 ≤ b.toNat)
    (hhigh : b.toNat < 0xf0) (h₁ : 0x80 ≤ b₁.toNat ∧ b₁.toNat ≤ 0xbf)
    (hlong : b.toNat = 0xe0 → 0xa0 ≤ b₁.toNat) (h₂ : 0x80 ≤ b₂.toNat ∧ b₂.toNat ≤ 0xbf)
    (hc : c.val.toNat = ((b.toNat - 0xe0) * 64 + (b₁.toNat - 0x80)) * 64 + (b₂.toNat - 0x80)) :
    [b, b₁, b₂] = String.utf8EncodeChar c := by
  rw [String.utf8EncodeChar, if_neg (by omega), if_neg (by omega), if_pos (by omega),
    ofNat_eq_of_eq_toNat (by omega : c.val.toNat / 4096 % 16 + 0xe0 = b.toNat),
    ofNat_eq_of_eq_toNat (by omega : c.val.toNat / 64 % 64 + 0x80 = b₁.toNat),
    ofNat_eq_of_eq_toNat (by omega : c.val.toNat % 64 + 0x80 = b₂.toNat)]

theorem Sequence.Completes.eq_of_three {b : UInt8} {bytes : List UInt8} {c : Char}
    (hlow : 0xe0 ≤ b.toNat) (hhigh : b.toNat < 0xf0)
    (h : Completes ⟨b.toNat - 0xe0, if b = 0xe0 then 0xa0 else 0x80,
      if b = 0xed then 0x9f else 0xbf, 1⟩ bytes c) :
    b :: bytes = String.utf8EncodeChar c := by
  obtain ⟨b₁, rest, hlow₁, hhigh₁, rfl, hrest⟩ := completes_succ_iff.1 h
  obtain ⟨b₂, hlow₂, hhigh₂, rfl, hc⟩ := completes_zero_iff.1 hrest
  obtain ⟨hlow₁, hhigh₁, hlong, hsurrogate⟩ := second_of_three_iff.1 ⟨hlow₁, hhigh₁⟩
  have h₂ := continuation_iff.1 ⟨hlow₂, hhigh₂⟩
  refine utf8EncodeChar_of_three hlow hhigh ⟨hlow₁, hhigh₁⟩ hlong h₂ (val_toNat_of_eq_ofNat hc ?_)
  -- what is behind the lead of the surrogates is behind the surrogates
  rcases Nat.lt_or_ge 0xed b.toNat with hbehind | hbefore
  · exact .inr ⟨by omega, by omega⟩
  · exact .inl (by omega)

theorem exists_reads_three {c : Char} (hlow : 0x800 ≤ c.val.toNat) (hhigh : c.val.toNat < 0x10000) :
    ∃ bytes, Reads bytes c := by
  -- not a surrogate, so the second byte keeps to its bounds
  have hvalid : c.val.toNat < 0xd800 ∨ 0xdfff < c.val.toNat ∧ c.val.toNat < 0x110000 := c.valid
  obtain ⟨b, hb⟩ := exists_toNat_eq (by omega : c.val.toNat / 4096 + 0xe0 < 256)
  obtain ⟨b₁, hb₁⟩ := exists_toNat_eq (by omega : c.val.toNat / 64 % 64 + 0x80 < 256)
  obtain ⟨b₂, hb₂⟩ := exists_toNat_eq (by omega : c.val.toNat % 64 + 0x80 < 256)
  obtain ⟨hlow₁, hhigh₁⟩ := second_of_three_iff.2
    (by omega : 0x80 ≤ b₁.toNat ∧ b₁.toNat ≤ 0xbf ∧ (b.toNat = 0xe0 → 0xa0 ≤ b₁.toNat) ∧
      (b.toNat = 0xed → b₁.toNat ≤ 0x9f))
  obtain ⟨hlow₂, hhigh₂⟩ := continuation_iff.2
    (by omega : 0x80 ≤ b₂.toNat ∧ b₂.toNat ≤ 0xbf)
  exact ⟨[b, b₁, b₂], .opens (Lead.ofByte_of_three (by omega) (by omega))
    (.next hlow₁ hhigh₁ (.last hlow₂ hhigh₂ (eq_ofNat_of_eq_val_toNat (by omega))))⟩

/-! ## Four bytes -/

theorem utf8EncodeChar_of_four {c : Char} {b b₁ b₂ b₃ : UInt8} (hlow : 0xf0 ≤ b.toNat)
    (hhigh : b.toNat < 0xf5) (h₁ : 0x80 ≤ b₁.toNat ∧ b₁.toNat ≤ 0xbf)
    (hlong : b.toNat = 0xf0 → 0x90 ≤ b₁.toNat) (h₂ : 0x80 ≤ b₂.toNat ∧ b₂.toNat ≤ 0xbf)
    (h₃ : 0x80 ≤ b₃.toNat ∧ b₃.toNat ≤ 0xbf)
    (hc : c.val.toNat =
      (((b.toNat - 0xf0) * 64 + (b₁.toNat - 0x80)) * 64 + (b₂.toNat - 0x80)) * 64 +
        (b₃.toNat - 0x80)) :
    [b, b₁, b₂, b₃] = String.utf8EncodeChar c := by
  rw [String.utf8EncodeChar, if_neg (by omega), if_neg (by omega), if_neg (by omega),
    ofNat_eq_of_eq_toNat (by omega : c.val.toNat / 262144 % 8 + 0xf0 = b.toNat),
    ofNat_eq_of_eq_toNat (by omega : c.val.toNat / 4096 % 64 + 0x80 = b₁.toNat),
    ofNat_eq_of_eq_toNat (by omega : c.val.toNat / 64 % 64 + 0x80 = b₂.toNat),
    ofNat_eq_of_eq_toNat (by omega : c.val.toNat % 64 + 0x80 = b₃.toNat)]

theorem Sequence.Completes.eq_of_four {b : UInt8} {bytes : List UInt8} {c : Char}
    (hlow : 0xf0 ≤ b.toNat) (hhigh : b.toNat < 0xf5)
    (h : Completes ⟨b.toNat - 0xf0, if b = 0xf0 then 0x90 else 0x80,
      if b = 0xf4 then 0x8f else 0xbf, 2⟩ bytes c) :
    b :: bytes = String.utf8EncodeChar c := by
  obtain ⟨b₁, rest, hlow₁, hhigh₁, rfl, hrest⟩ := completes_succ_iff.1 h
  obtain ⟨b₂, rest', hlow₂, hhigh₂, rfl, hrest'⟩ := completes_succ_iff.1 hrest
  obtain ⟨b₃, hlow₃, hhigh₃, rfl, hc⟩ := completes_zero_iff.1 hrest'
  obtain ⟨hlow₁, hhigh₁, hlong, hpast⟩ := second_of_four_iff.1 ⟨hlow₁, hhigh₁⟩
  have h₂ := continuation_iff.1 ⟨hlow₂, hhigh₂⟩
  have h₃ := continuation_iff.1 ⟨hlow₃, hhigh₃⟩
  exact utf8EncodeChar_of_four hlow hhigh ⟨hlow₁, hhigh₁⟩ hlong h₂ h₃
    (val_toNat_of_eq_ofNat hc (.inr ⟨by omega, by omega⟩))

theorem exists_reads_four {c : Char} (hlow : 0x10000 ≤ c.val.toNat) : ∃ bytes, Reads bytes c := by
  -- not beyond the last code point, which bounds the second byte from above
  have hvalid : c.val.toNat < 0xd800 ∨ 0xdfff < c.val.toNat ∧ c.val.toNat < 0x110000 := c.valid
  obtain ⟨b, hb⟩ := exists_toNat_eq (by omega : c.val.toNat / 262144 + 0xf0 < 256)
  obtain ⟨b₁, hb₁⟩ := exists_toNat_eq (by omega : c.val.toNat / 4096 % 64 + 0x80 < 256)
  obtain ⟨b₂, hb₂⟩ := exists_toNat_eq (by omega : c.val.toNat / 64 % 64 + 0x80 < 256)
  obtain ⟨b₃, hb₃⟩ := exists_toNat_eq (by omega : c.val.toNat % 64 + 0x80 < 256)
  obtain ⟨hlow₁, hhigh₁⟩ := second_of_four_iff.2
    (by omega : 0x80 ≤ b₁.toNat ∧ b₁.toNat ≤ 0xbf ∧ (b.toNat = 0xf0 → 0x90 ≤ b₁.toNat) ∧
      (b.toNat = 0xf4 → b₁.toNat ≤ 0x8f))
  obtain ⟨hlow₂, hhigh₂⟩ := continuation_iff.2
    (by omega : 0x80 ≤ b₂.toNat ∧ b₂.toNat ≤ 0xbf)
  obtain ⟨hlow₃, hhigh₃⟩ := continuation_iff.2
    (by omega : 0x80 ≤ b₃.toNat ∧ b₃.toNat ≤ 0xbf)
  exact ⟨[b, b₁, b₂, b₃], .opens (Lead.ofByte_of_four (by omega) (by omega))
    (.next hlow₁ hhigh₁ (.next hlow₂ hhigh₂
      (.last hlow₃ hhigh₃ (eq_ofNat_of_eq_val_toNat (by omega)))))⟩

/-! ## Any number of bytes -/

/-- What is read as a character is its encoding. -/
theorem Reads.eq_utf8EncodeChar {bytes : List UInt8} {c : Char} (h : Reads bytes c) :
    bytes = String.utf8EncodeChar c := by
  cases h with
  | single hlead => exact utf8EncodeChar_of_one hlead
  -- the lead tells how many bytes there are
  | @opens b s bytes _ hlead hrest =>
    obtain ⟨hlow, hhigh⟩ := Lead.toNat_of_ofByte_eq_opens hlead
    rcases Nat.lt_or_ge b.toNat 0xe0 with htwo | htwo
    · rw [Lead.ofByte_of_two hlow htwo, Lead.opens.injEq] at hlead
      exact (hlead ▸ hrest).eq_of_two hlow htwo
    rcases Nat.lt_or_ge b.toNat 0xf0 with hthree | hthree
    · rw [Lead.ofByte_of_three htwo hthree, Lead.opens.injEq] at hlead
      exact (hlead ▸ hrest).eq_of_three htwo hthree
    · rw [Lead.ofByte_of_four hthree hhigh, Lead.opens.injEq] at hlead
      exact (hlead ▸ hrest).eq_of_four hthree hhigh

/-- Every character can be read. -/
theorem exists_reads (c : Char) : ∃ bytes, Reads bytes c := by
  -- by the number of bytes that its code point takes
  rcases Nat.lt_or_ge c.val.toNat 0x80 with hone | hone
  · exact exists_reads_one hone
  rcases Nat.lt_or_ge c.val.toNat 0x800 with htwo | htwo
  · exact exists_reads_two hone htwo
  rcases Nat.lt_or_ge c.val.toNat 0x10000 with hthree | hthree
  · exact exists_reads_three htwo hthree
  · exact exists_reads_four hthree

/-- What is read as a character is its encoding, and nothing else is. -/
theorem reads_iff {bytes : List UInt8} {c : Char} :
    Reads bytes c ↔ bytes = String.utf8EncodeChar c := by
  refine ⟨Reads.eq_utf8EncodeChar, ?_⟩
  rintro rfl
  obtain ⟨bytes, h⟩ := exists_reads c
  rwa [← h.eq_utf8EncodeChar]

/-! ## Runs of the decoder -/

open Decoder (step)

theorem Sequence.Completes.foldl_step {s : Sequence} {bytes : List UInt8} {c : Char}
    (h : s.Completes bytes c) (text : String) :
    bytes.foldl step ⟨text, some s⟩ = ⟨text.push c, none⟩ := by
  induction h with
  | last hlow hhigh hc => simp [step, hlow, hhigh, hc]
  | next hlow hhigh _ ih =>
    rw [List.foldl_cons, ← ih]
    simp [step, hlow, hhigh]

theorem Reads.foldl_step {bytes : List UInt8} {c : Char} (h : Reads bytes c) (text : String) :
    bytes.foldl step ⟨text, none⟩ = ⟨text.push c, none⟩ := by
  cases h with
  | single hlead => simp [step, Decoder.begin, hlead]
  | opens hlead hrest =>
    rw [List.foldl_cons, ← hrest.foldl_step text]
    simp [step, Decoder.begin, hlead]

theorem Decoder.begin_append (text front : String) (b : UInt8) :
    begin (text ++ front) b = ⟨text ++ (begin front b).text, (begin front b).pending⟩ := by
  unfold begin
  split <;> simp [← String.toList_inj]

/-- Reading a byte does not look at the text before it. -/
theorem Decoder.step_append (text front : String) (pending : Option Sequence) (b : UInt8) :
    step ⟨text ++ front, pending⟩ b =
      ⟨text ++ (step ⟨front, pending⟩ b).text, (step ⟨front, pending⟩ b).pending⟩ := by
  cases pending with
  | none => exact begin_append text front b
  | some s =>
    -- the byte goes on with what is pending, or breaks it off
    by_cases hb : s.low ≤ b ∧ b ≤ s.high
    · cases hmore : s.more <;> simp [step, hb, hmore, ← String.toList_inj]
    · simp only [step, if_neg hb]
      rw [← begin_append, String.push_eq_append, String.push_eq_append, String.append_assoc]

theorem Decoder.finish_foldl_step_append (text front : String) (pending : Option Sequence)
    (bytes : List UInt8) :
    (bytes.foldl step ⟨text ++ front, pending⟩).finish =
      text ++ (bytes.foldl step ⟨front, pending⟩).finish := by
  -- byte by byte, with whatever text there is before
  induction bytes generalizing front pending with
  | nil => cases pending <;> simp [finish, ← String.toList_inj]
  | cons b bytes ih => rw [List.foldl_cons, step_append, ih, List.foldl_cons]

/-- Between characters, what follows is decoded by itself. -/
theorem Decoder.finish_foldl_step (text : String) (bytes : List UInt8) :
    (bytes.foldl step ⟨text, none⟩).finish = text ++ decode bytes := by
  have := finish_foldl_step_append text "" none bytes
  rwa [String.append_empty] at this

/-- The encoding of a character is decoded to it, whatever follows. -/
theorem toList_decode_utf8EncodeChar_append (c : Char) (bytes : List UInt8) :
    (decode (String.utf8EncodeChar c ++ bytes)).toList = c :: (decode bytes).toList := by
  rw [decode_append, Decoder.start, (reads_iff.2 rfl).foldl_step, Decoder.finish_foldl_step]
  simp

/-- A text is decoded from its bytes. -/
theorem decode_encode (text : String) : decode (encode text) = text := by
  rw [encode_eq, ← String.toList_inj]
  -- character by character, each decoded whatever follows
  induction text.toList with
  | nil => rfl
  | cons c cs ih => rw [List.flatMap_cons, toList_decode_utf8EncodeChar_append, ih]

/-! ## Maximal subparts -/

/-- Whether a character can begin with `front`, which may be all of it. -/
def BeginsChar (front : List UInt8) : Prop := ∃ c, front <+: String.utf8EncodeChar c

/-- `part` is the longest start of a character at the front of `bytes`, or the first byte if no
character begins with that. -/
structure IsMaximalSubpart (part bytes : List UInt8) : Prop where
  ne_nil : part ≠ []
  front : part <+: bytes
  begins : part.length = 1 ∨ BeginsChar part
  length_le : ∀ other, other <+: bytes → BeginsChar other → other.length ≤ part.length

/-- `cs` is the text of `bytes`, with one replacement for each maximal subpart where no character
stands. -/
inductive Replaces : List UInt8 → List Char → Prop where
  | nil : Replaces [] []
  | char {bytes cs} (c : Char) (hrest : Replaces bytes cs) :
    Replaces (String.utf8EncodeChar c ++ bytes) (c :: cs)
  | part {part bytes cs} (hnone : ∀ c, ¬ String.utf8EncodeChar c <+: part ++ bytes)
    (hpart : IsMaximalSubpart part (part ++ bytes)) (hrest : Replaces bytes cs) :
    Replaces (part ++ bytes) (replacement :: cs)

open Classical in
theorem exists_isMaximalSubpart {bytes : List UInt8} (hne : bytes ≠ []) :
    ∃ part rest, part ++ rest = bytes ∧ IsMaximalSubpart part bytes := by
  let n := Nat.findGreatest (fun n => BeginsChar (bytes.take n)) bytes.length
  -- the longest start of a character, or the first byte if there is none
  have hpos := List.length_pos_iff.2 hne
  have hn : n ≤ bytes.length := Nat.findGreatest_le _
  have hlength : (bytes.take (max 1 n)).length = max 1 n := by
    rw [List.length_take]
    omega
  refine ⟨bytes.take (max 1 n), _, List.take_append_drop _ _, ?_, List.take_prefix _ _, ?_, ?_⟩
  · rw [← List.length_pos_iff, hlength]
    omega
  · -- no start of a character but the empty one, or the longest one
    by_cases hzero : n = 0
    · exact .inl (by rw [hlength, hzero]; rfl)
    · rw [Nat.max_eq_right (by omega)]
      exact .inr (Nat.findGreatest_of_ne_zero rfl hzero)
  · -- a longer start would have been found
    intro other hother hbegins
    rw [List.prefix_iff_eq_take.1 hother] at hbegins
    rw [hlength]
    exact Nat.le_trans (Nat.le_findGreatest hother.length_le hbegins) (Nat.le_max_right 1 n)

/-- All bytes have a text. -/
theorem exists_replaces (bytes : List UInt8) : ∃ cs, Replaces bytes cs := by
  -- each step takes a byte off at least, so the induction is on the number of bytes
  induction hn : bytes.length using Nat.strongRecOn generalizing bytes with
  | _ n ih =>
    by_cases hne : bytes = []
    · exact ⟨[], hne ▸ .nil⟩
    -- a character stands here
    by_cases hchar : ∃ c, String.utf8EncodeChar c <+: bytes
    · obtain ⟨c, rest, rfl⟩ := hchar
      have hpos := List.length_pos_iff.2 (String.utf8EncodeChar_ne_nil (c := c))
      rw [List.length_append] at hn
      obtain ⟨cs, hcs⟩ := ih rest.length (by omega) rest rfl
      exact ⟨_, .char c hcs⟩
    · -- none does, so a maximal subpart is replaced
      obtain ⟨part, rest, rfl, hpart⟩ := exists_isMaximalSubpart hne
      have hpos := List.length_pos_iff.2 hpart.ne_nil
      rw [List.length_append] at hn
      obtain ⟨cs, hcs⟩ := ih rest.length (by omega) rest rfl
      exact ⟨_, .part (not_exists.1 hchar) hpart hcs⟩

/-! ## What the decoder replaces -/

/-- A byte within the bounds can be followed up to the end of a character. -/
theorem Sequence.exists_completes {s : Sequence} {b : UInt8} (hlow : s.low ≤ b)
    (hhigh : b ≤ s.high) : ∃ bytes c, s.Completes (b :: bytes) c := by
  obtain ⟨bits, low, high, more⟩ := s
  induction more generalizing bits low high b with
  | zero => exact ⟨[], _, .last hlow hhigh rfl⟩
  | succ more ih =>
    -- any continuation byte will do, so it goes on with the least one
    obtain ⟨bytes, c, h⟩ := ih (bits * 64 + (b.toNat - 0x80)) 0x80 0xbf
      (UInt8.le_refl 0x80) (UInt8.le_iff_toNat_le.2 (by decide : 0x80 ≤ 0xbf))
    exact ⟨_, c, .next hlow hhigh h⟩

/-- A character whose end has not been read is pending, and all that can end what is pending can end
what was begun. -/
theorem Sequence.Completes.exists_pending {s : Sequence} {front rest : List UInt8} {c : Char}
    (h : s.Completes (front ++ rest) c) (hrest : rest ≠ []) (text : String) :
    ∃ s', front.foldl step ⟨text, some s⟩ = ⟨text, some s'⟩ ∧
      ∀ bytes c', s'.Completes bytes c' → s.Completes (front ++ bytes) c' := by
  induction front generalizing s with
  | nil => exact ⟨s, rfl, fun _ _ h' => h'⟩
  | cons b front ih =>
    rw [List.cons_append] at h
    generalize htail : front ++ rest = tail at h
    cases h with
    -- only the last byte is missing, so nothing has been read
    | last => exact absurd (List.append_eq_nil_iff.1 htail).2 hrest
    | next hlow hhigh hnext =>
      -- the byte goes on with the character, and what follows ends it as before
      rw [← htail] at hnext
      obtain ⟨s', hrun, hends⟩ := ih hnext
      refine ⟨s', ?_, fun bytes c' h' => .next hlow hhigh (hends bytes c' h')⟩
      rw [List.foldl_cons, ← hrun]
      simp [step, hlow, hhigh]

/-- What is pending is replaced when a byte does not continue it. -/
theorem Decoder.step_of_broken {s : Sequence} {b : UInt8} (h : ¬ (s.low ≤ b ∧ b ≤ s.high))
    (text : String) : step ⟨text, some s⟩ b = step ⟨text.push replacement, none⟩ b := by
  simp [step, h]

theorem Decoder.finish_foldl_step_of_broken {s : Sequence} {bytes : List UInt8}
    (h : ∀ b ∈ bytes.head?, ¬ (s.low ≤ b ∧ b ≤ s.high)) (text : String) :
    (bytes.foldl step ⟨text, some s⟩).finish = text.push replacement ++ decode bytes := by
  rw [← finish_foldl_step]
  -- no byte comes, or one that does not go on with it
  cases bytes with
  | nil => rfl
  | cons b bytes => rw [List.foldl_cons, List.foldl_cons, step_of_broken (h b rfl)]

/-- Behind a byte that opens a character, the rest of a maximal subpart is pending, and the byte
that follows does not continue it. -/
theorem IsMaximalSubpart.exists_pending {b : UInt8} {s : Sequence} {part bytes : List UInt8}
    (h : IsMaximalSubpart (b :: part) (b :: part ++ bytes))
    (hnone : ∀ c, ¬ String.utf8EncodeChar c <+: b :: part ++ bytes)
    (hlead : Lead.ofByte b = .opens s) (text : String) :
    ∃ s', part.foldl step ⟨text, some s⟩ = ⟨text, some s'⟩ ∧
      ∀ b' ∈ bytes.head?, ¬ (s'.low ≤ b' ∧ b' ≤ s'.high) := by
  obtain ⟨s', hrun, hends⟩ : ∃ s', part.foldl step ⟨text, some s⟩ = ⟨text, some s'⟩ ∧
      ∀ rest c, s'.Completes rest c → s.Completes (part ++ rest) c := by
    rcases h.begins with hone | ⟨c, rest, hrest⟩
    · -- the first byte is all of the part
      obtain rfl : part = [] := List.length_eq_zero_iff.1 (Nat.succ.inj hone)
      exact ⟨s, rfl, fun _ _ h' => h'⟩
    · -- the part begins a character, but it is not all of it
      refine ((reads_iff.2 hrest).completes hlead).exists_pending ?_ text
      rintro rfl
      rw [List.append_nil] at hrest
      exact hnone c (hrest ▸ List.prefix_append _ _)
  refine ⟨s', hrun, fun b' hb' hwithin => ?_⟩
  -- otherwise a character could begin with one byte more
  obtain ⟨rest, rfl⟩ := List.head?_eq_some_iff.1 hb'
  obtain ⟨tail, c, hcompletes⟩ := Sequence.exists_completes hwithin.1 hwithin.2
  have hreads := Reads.opens hlead (hends _ _ hcompletes)
  have hlength := h.length_le (b :: part ++ [b']) ⟨rest, by simp⟩
    ⟨c, tail, by rw [← reads_iff.1 hreads]; simp⟩
  rw [List.length_append, List.length_singleton] at hlength
  omega

/-- A maximal subpart where no character stands becomes one replacement. -/
theorem IsMaximalSubpart.toList_decode_append {part bytes : List UInt8}
    (h : IsMaximalSubpart part (part ++ bytes))
    (hnone : ∀ c, ¬ String.utf8EncodeChar c <+: part ++ bytes) :
    (decode (part ++ bytes)).toList = replacement :: (decode bytes).toList := by
  obtain ⟨b, part, rfl⟩ := List.exists_cons_of_ne_nil h.ne_nil
  rw [decode_append, Decoder.start, List.foldl_cons, step, Decoder.begin]
  cases hlead : Lead.ofByte b with
  -- an ASCII byte would be a character
  | single c =>
    refine absurd ?_ (hnone c)
    rw [← reads_iff.1 (.single hlead)]
    exact ⟨part ++ bytes, rfl⟩
  -- what is pending is broken off by what follows, or by the end
  | opens s =>
    obtain ⟨s', hrun, hbroken⟩ := h.exists_pending hnone hlead ""
    rw [hrun, Decoder.finish_foldl_step_of_broken hbroken]
    simp
  -- a stray byte begins no character, so it is all of the part
  | stray =>
    rcases h.begins with hone | ⟨c, rest, hrest⟩
    · obtain rfl : part = [] := List.length_eq_zero_iff.1 (Nat.succ.inj hone)
      rw [List.foldl_nil, Decoder.finish_foldl_step]
      simp
    · exact absurd (reads_iff.2 hrest) (not_reads_of_stray hlead _ c)

/-- The text of any bytes, told by what stands in them. -/
theorem replaces_iff {bytes : List UInt8} {cs : List Char} :
    Replaces bytes cs ↔ cs = (decode bytes).toList := by
  have hdecode : ∀ cs, Replaces bytes cs → cs = (decode bytes).toList := by
    -- each step of `Replaces` is one that the decoder makes
    intro cs h
    induction h with
    | nil => rfl
    | char c _ ih => rw [toList_decode_utf8EncodeChar_append, ih]
    | part hnone hpart _ ih => rw [hpart.toList_decode_append hnone, ih]
  refine ⟨hdecode cs, ?_⟩
  -- the other way round, there is some text, and it is the one that is decoded
  rintro rfl
  obtain ⟨cs, h⟩ := exists_replaces bytes
  rwa [← hdecode cs h]

end TokenCensus.Text.Utf8

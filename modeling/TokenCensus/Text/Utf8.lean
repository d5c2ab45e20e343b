/-!
# Reading and writing UTF-8

`encode` gives the bytes of a text and `decode` the text of any bytes.  Bytes that are no UTF-8
never make decoding fail: each is replaced.  A sequence that breaks off is replaced as a whole,
by one replacement character for all the bytes that could still have been the start of a
character; every other stray byte is replaced by one of its own.  A byte order mark is a character
like any other.

Decoding reads one byte at a time.  `Decoder` is the state between two bytes, and `Sequence` what
is known of a character whose last byte has not been read.

## Key results

- `decode_append`: decoding can pause between any two bytes, and go on from the state there
- `decode_of_ascii`: ASCII bytes are characters of their own
-/

namespace TokenCensus.Text.Utf8

/-- The bytes of a text. -/
def encode (text : String) : List UInt8 :=
  text.toUTF8.data.toList

/-- The character that stands for bytes that could not be decoded. -/
def replacement : Char := '\ufffd'

/-- A character that has been begun: the bits read so far, the least and the greatest value that
its next byte may have, and the number of bytes that follow that one. -/
structure Sequence where
  bits : Nat
  low : UInt8
  high : UInt8
  more : Nat
deriving DecidableEq, Repr

/-- What a byte is when it stands at the start of a character. -/
inductive Lead where
  /-- The byte is a whole character. -/
  | single (c : Char)
  /-- The byte begins a longer character. -/
  | opens (s : Sequence)
  /-- No character starts with the byte. -/
  | stray
deriving DecidableEq, Repr

/-- The role of a byte at the start of a character.  The bounds for the second byte rule out
encodings that are longer than they need be, surrogates, and values past the last code point. -/
def Lead.ofByte (b : UInt8) : Lead :=
  if b < 0x80 then .single (Char.ofNat b.toNat)
  -- continuation bytes, and the two that could only encode ASCII once more
  else if b < 0xc2 then .stray
  else if b < 0xe0 then .opens ⟨b.toNat - 0xc0, 0x80, 0xbf, 0⟩
  else if b < 0xf0 then
    -- below 0xa0 an encoding is too long, above 0x9f it is a surrogate
    .opens ⟨b.toNat - 0xe0, if b = 0xe0 then 0xa0 else 0x80, if b = 0xed then 0x9f else 0xbf, 1⟩
  else if b < 0xf5 then
    -- below 0x90 an encoding is too long, above 0x8f it is past the last code point
    .opens ⟨b.toNat - 0xf0, if b = 0xf0 then 0x90 else 0x80, if b = 0xf4 then 0x8f else 0xbf, 2⟩
  else .stray

/-- The text decoded so far, and the character that has been begun, if there is one. -/
structure Decoder where
  text : String
  pending : Option Sequence
deriving DecidableEq, Repr

namespace Decoder

/-- The state before the first byte. -/
def start : Decoder := ⟨"", none⟩

/-- Reads a byte at the start of a character. -/
def begin (text : String) (b : UInt8) : Decoder :=
  match Lead.ofByte b with
  | .single c => ⟨text.push c, none⟩
  | .opens s => ⟨text, some s⟩
  | .stray => ⟨text.push replacement, none⟩

/-- Reads a byte.  One that cannot continue the pending character ends it with a replacement, and
is then read as the start of another. -/
def step (d : Decoder) (b : UInt8) : Decoder :=
  match d.pending with
  | none => begin d.text b
  | some s =>
    if s.low ≤ b ∧ b ≤ s.high then
      match s.more with
      | 0 => ⟨d.text.push (Char.ofNat (s.bits * 64 + (b.toNat - 0x80))), none⟩
      -- only the second byte of a character has bounds of its own
      | more + 1 => ⟨d.text, some ⟨s.bits * 64 + (b.toNat - 0x80), 0x80, 0xbf, more⟩⟩
    else begin (d.text.push replacement) b

/-- The text after the last byte. -/
def finish (d : Decoder) : String :=
  match d.pending with
  | none => d.text
  | some _ => d.text.push replacement

end Decoder

/-- The text of `bytes`, with replacements where they are no UTF-8. -/
def decode (bytes : List UInt8) : String :=
  (bytes.foldl Decoder.step Decoder.start).finish

/-- Decoding two stretches of bytes is decoding the second from where the first ended. -/
theorem decode_append (front rest : List UInt8) :
    decode (front ++ rest) =
      (rest.foldl Decoder.step (front.foldl Decoder.step Decoder.start)).finish := by
  rw [decode, List.foldl_append]

/-- An ASCII byte at the start of a character is a character. -/
theorem Decoder.step_of_ascii (text : String) {b : UInt8} (h : b < 0x80) :
    step ⟨text, none⟩ b = ⟨text.push (Char.ofNat b.toNat), none⟩ := by
  simp [step, begin, Lead.ofByte, h]

theorem Decoder.foldl_step_of_ascii {bytes : List UInt8} (h : ∀ b ∈ bytes, b < 0x80)
    (text : String) :
    bytes.foldl step ⟨text, none⟩ =
      ⟨text ++ String.ofList (bytes.map fun b => Char.ofNat b.toNat), none⟩ := by
  induction bytes generalizing text with
  | nil => simp
  | cons b bytes ih =>
    obtain ⟨hb, hbytes⟩ := List.forall_mem_cons.1 h
    rw [List.foldl_cons, step_of_ascii text hb, ih hbytes]
    congr 1
    rw [← String.toList_inj]
    simp

/-- ASCII is decoded byte by byte. -/
theorem decode_of_ascii {bytes : List UInt8} (h : ∀ b ∈ bytes, b < 0x80) :
    decode bytes = String.ofList (bytes.map fun b => Char.ofNat b.toNat) := by
  rw [decode, Decoder.start, Decoder.foldl_step_of_ascii h, Decoder.finish, ← String.toList_inj]
  simp

end TokenCensus.Text.Utf8

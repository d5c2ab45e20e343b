import TokenCensus.Proofs.MaximalSubpart
import TokenCensus.Source.Basic

/-!
# Damaged bytes

Bytes of a file that are no text are replaced, and that does not reach far.  No character of more
than one byte has a byte of ASCII in it, so an ASCII byte always ends what was pending, and it is a
character of its own.  The bytes before it and the bytes behind it are decoded as if the others were
not there.  A newline is such a byte, so each line is decoded by itself.

## Key results

- `expectsNoAscii_foldl_step`: what is pending is never continued by an ASCII byte
- `decode_append_ascii`: decoding begins anew at every ASCII byte
- `filter_toList_decode`: the ASCII characters of a text are the ASCII bytes of the file
- `splitOn_toList_decode`: the lines of a text are the lines of the file
- `Source.damage_stays_local`: all of this, for the text of a file
-/

namespace TokenCensus.Text.Utf8

open Decoder (step)

/-! ## Where decoding begins anew -/

/-- Whether no ASCII byte can continue what is pending. -/
def Decoder.ExpectsNoAscii (d : Decoder) : Prop := ∀ s ∈ d.pending, 0x80 ≤ s.low

theorem Lead.low_of_ofByte_eq_opens {b : UInt8} {s : Sequence} (h : ofByte b = .opens s) :
    0x80 ≤ s.low := by
  grind [ofByte]

theorem Decoder.expectsNoAscii_begin (text : String) (b : UInt8) :
    (begin text b).ExpectsNoAscii := by
  intro s hs
  -- only a lead byte leaves something pending, and what may follow it is no ASCII byte
  unfold begin at hs
  split at hs
  · cases hs
  · next hlead => exact Option.some.inj hs ▸ Lead.low_of_ofByte_eq_opens hlead
  · cases hs

theorem Decoder.expectsNoAscii_step (d : Decoder) (b : UInt8) : (step d b).ExpectsNoAscii := by
  unfold step
  -- nothing was pending, or the byte breaks off what was: both times it is a first byte
  split
  · exact expectsNoAscii_begin _ b
  · split
    · -- the byte goes on with what is pending: that is complete, or waits for one from 0x80 on
      split <;> intro s hs
      · cases hs
      · exact Option.some.inj hs ▸ UInt8.le_refl 0x80
    · exact expectsNoAscii_begin _ b

theorem Decoder.expectsNoAscii_foldl_step (bytes : List UInt8) :
    (bytes.foldl step start).ExpectsNoAscii := by
  cases List.eq_nil_or_concat bytes with
  | inl hnil =>
    subst hnil
    rintro s ⟨⟩
  | inr hconcat =>
    obtain ⟨front, b, rfl⟩ := hconcat
    rw [List.concat_eq_append, List.foldl_append]
    exact expectsNoAscii_step _ b

/-- An ASCII byte ends what is pending and is a character. -/
theorem Decoder.ExpectsNoAscii.step_of_ascii {d : Decoder} (h : d.ExpectsNoAscii) {b : UInt8}
    (hb : b < 0x80) : step d b = ⟨d.finish.push (Char.ofNat b.toNat), none⟩ := by
  obtain ⟨text, pending⟩ := d
  cases pending with
  | none => exact Decoder.step_of_ascii text hb
  | some s =>
    -- what is pending takes no byte below 0x80, so it is broken off first
    have hlow : ¬ s.low ≤ b :=
      fun hle => UInt8.not_le.2 hb (UInt8.le_trans (h s rfl) hle)
    rw [step_of_broken fun hwithin => hlow hwithin.1]
    exact Decoder.step_of_ascii _ hb

/-- Decoding begins anew at every ASCII byte. -/
theorem decode_append_ascii (front : List UInt8) {b : UInt8} (hb : b < 0x80) (rest : List UInt8) :
    decode (front ++ [b] ++ rest) =
      decode front ++ String.singleton (Char.ofNat b.toNat) ++ decode rest := by
  -- whatever stood before, the ASCII byte leaves nothing pending
  have hstep := (Decoder.expectsNoAscii_foldl_step front).step_of_ascii hb
  rw [decode_append, List.foldl_append, List.foldl_cons, List.foldl_nil, hstep,
    Decoder.finish_foldl_step, String.push_eq_append]
  rfl

/-! ## ASCII -/

theorem toNat_ofNat_of_ascii {b : UInt8} (hb : b < 0x80) :
    (Char.ofNat b.toNat).toNat = b.toNat := by
  have hlt : b.toNat < 0x80 := UInt8.lt_iff_toNat_lt.1 hb
  rw [← Char.toNat_val]
  exact val_toNat_of_eq_ofNat rfl (.inl (by omega))

theorem utf8EncodeChar_ofNat_of_ascii {b : UInt8} (hb : b < 0x80) :
    String.utf8EncodeChar (Char.ofNat b.toNat) = [b] :=
  (reads_iff.1 (.single (Lead.ofByte_eq_single_iff.2 ⟨hb, rfl⟩))).symm

/-- A character is an ASCII byte, or it has none. -/
theorem ascii_or_not (c : Char) :
    (∃ b < (0x80 : UInt8), c = Char.ofNat b.toNat) ∨
      ¬ c.toNat < 0x80 ∧ ∀ b ∈ String.utf8EncodeChar c, ¬ b < 0x80 := by
  by_cases hc : c.val.toNat ≤ 0x7f
  · obtain ⟨b, hb⟩ := exists_toNat_eq (by omega : c.val.toNat < 256)
    refine .inl ⟨b, UInt8.lt_iff_toNat_lt.2 (hb ▸ Nat.lt_succ_of_le hc), ?_⟩
    rw [hb, Char.toNat_val, Char.ofNat_toNat]
  · refine .inr ⟨fun hlt => hc (Nat.le_of_lt_succ hlt), fun b hmem hb => ?_⟩
    have hle := Grammar.le_toNat_of_mem_utf8EncodeChar hc b hmem
    exact absurd (UInt8.lt_iff_toNat_lt.1 hb) (Nat.not_lt.2 hle)

/-- The characters that ASCII bytes are. -/
def asciiChars (bytes : List UInt8) : List Char :=
  (bytes.filter (· < 0x80)).map fun b => Char.ofNat b.toNat

@[simp]
theorem asciiChars_append (front rest : List UInt8) :
    asciiChars (front ++ rest) = asciiChars front ++ asciiChars rest := by
  simp [asciiChars]

theorem asciiChars_utf8EncodeChar (c : Char) :
    asciiChars (String.utf8EncodeChar c) = [c].filter (·.toNat < 0x80) := by
  rcases ascii_or_not c with ⟨b, hb, rfl⟩ | ⟨hc, hbytes⟩
  · have hlt : b.toNat < 0x80 := UInt8.lt_iff_toNat_lt.1 hb
    rw [utf8EncodeChar_ofNat_of_ascii hb]
    simp [asciiChars, hb, toNat_ofNat_of_ascii hb, hlt]
  · rw [asciiChars, List.filter_eq_nil_iff.2 (by simpa using hbytes)]
    simp [hc]

/-- A maximal subpart where no character stands has no ASCII byte. -/
theorem IsMaximalSubpart.asciiChars_eq_nil {part bytes : List UInt8}
    (h : IsMaximalSubpart part (part ++ bytes))
    (hnone : ∀ c, ¬ String.utf8EncodeChar c <+: part ++ bytes) : asciiChars part = [] := by
  rw [asciiChars, List.map_eq_nil_iff, List.filter_eq_nil_iff]
  intro b hmem hb
  have hb : b < 0x80 := of_decide_eq_true hb
  -- a part with an ASCII byte is that byte alone
  have hpart : part = [b] := by
    rcases h.begins with hone | ⟨c, hfront⟩
    · obtain ⟨b', rfl⟩ := List.length_eq_one_iff.1 hone
      rw [List.mem_singleton.1 hmem]
    · -- a character with an ASCII byte has no other bytes
      rcases ascii_or_not c with ⟨b', hb', rfl⟩ | ⟨-, hbytes⟩
      · rw [utf8EncodeChar_ofNat_of_ascii hb'] at hfront
        rw [List.mem_singleton.1 (hfront.subset hmem)]
        exact hfront.eq_of_length_le (List.length_pos_iff.2 h.ne_nil)
      · exact absurd hb (hbytes b (hfront.subset hmem))
  -- then a character does stand here, namely that byte
  refine hnone (Char.ofNat b.toNat) ?_
  rw [utf8EncodeChar_ofNat_of_ascii hb, ← hpart]
  exact List.prefix_append part bytes

theorem Replaces.filter_eq {bytes : List UInt8} {cs : List Char} (h : Replaces bytes cs) :
    cs.filter (·.toNat < 0x80) = asciiChars bytes := by
  -- what a character is decoded from and what a replacement stands for, one after the other
  induction h with
  | nil => rfl
  | char c _ ih =>
    -- a character is either its one ASCII byte, or it has none
    rw [asciiChars_append, asciiChars_utf8EncodeChar, ← ih, ← List.filter_append,
      List.singleton_append]
  -- the replacement is no ASCII character, and it stands for no ASCII byte
  | part hnone hpart _ ih =>
    rw [asciiChars_append, hpart.asciiChars_eq_nil hnone, ← ih, List.filter_cons_of_neg (by decide),
      List.nil_append]

/-- The ASCII characters of a text are the ASCII bytes that it was decoded from. -/
theorem filter_toList_decode (bytes : List UInt8) :
    (decode bytes).toList.filter (·.toNat < 0x80) = asciiChars bytes :=
  (replaces_iff.2 rfl).filter_eq

/-! ## Lines -/

theorem newline_mem_of_mem_decode {bytes : List UInt8} (h : '\n' ∈ (decode bytes).toList) :
    0x0a ∈ bytes := by
  have hascii : '\n' ∈ asciiChars bytes := by
    rw [← filter_toList_decode]
    exact List.mem_filter.2 ⟨h, by decide⟩
  obtain ⟨b, hb, heq⟩ := List.mem_map.1 hascii
  obtain ⟨hmem, hb⟩ := List.mem_filter.1 hb
  -- of all ASCII characters the newline belongs to the byte 0x0a only
  have htoNat := congrArg Char.toNat heq
  rw [toNat_ofNat_of_ascii (of_decide_eq_true hb)] at htoNat
  rwa [← (UInt8.toNat_inj.1 htoNat : b = 0x0a)]

/-- The lines of a text are the lines that it was decoded from, each decoded by itself. -/
theorem splitOn_toList_decode (bytes : List UInt8) :
    (decode bytes).toList.splitOn '\n' =
      (bytes.splitOn 0x0a).map fun line => (decode line).toList := by
  -- by the first newline byte, so the induction is on the number of bytes
  induction hn : bytes.length using Nat.strongRecOn generalizing bytes with
  | _ n ih =>
    by_cases hmem : 0x0a ∈ bytes
    · obtain ⟨line, rest, rfl, hline⟩ := List.eq_append_cons_of_mem hmem
      -- decoding begins anew there
      have hdecode : (decode (line ++ 0x0a :: rest)).toList =
          (decode line).toList ++ '\n' :: (decode rest).toList := by
        have h := decode_append_ascii line (by decide : (0x0a : UInt8) < 0x80) rest
        rw [List.append_assoc, List.singleton_append] at h
        rw [h, String.append_assoc, String.toList_append, String.toList_append]
        rfl
      have hlength : rest.length < n := by
        rw [← hn, List.length_append, List.length_cons]
        omega
      -- the line before it has no newline, neither as bytes nor as characters
      rw [hdecode, List.splitOn_append_cons_self_of_not_mem (mt newline_mem_of_mem_decode hline),
        List.splitOn_append_cons_self_of_not_mem hline, ih _ hlength rest rfl, List.map_cons]
    · -- without a newline byte there is one line on both sides
      rw [List.splitOn_eq_singleton hmem,
        List.splitOn_eq_singleton (mt newline_mem_of_mem_decode hmem), List.map_singleton]

/-! ## Files -/

/-- Bytes that are a text are decoded to it. -/
theorem decode_of_isValidUTF8 {bytes : List UInt8} (h : bytes.toByteArray.IsValidUTF8) :
    decode bytes = String.fromUTF8 bytes.toByteArray h := by
  -- the text is encoded as these bytes, and decoding is undone by encoding
  have hencode : encode (String.fromUTF8 bytes.toByteArray h) = bytes :=
    List.toList_data_toByteArray
  rw [← decode_encode (String.fromUTF8 bytes.toByteArray h), hencode]

end TokenCensus.Text.Utf8

namespace TokenCensus.Source

open Text.Utf8

/-- The text of a file is what its bytes decode to.  Whatever stands in them is a character or
becomes one replacement for each maximal subpart, and bytes that are a text are decoded to it.
Decoding begins anew at every ASCII byte, so no ASCII byte is lost or moved, and each line is
decoded by itself. -/
theorem damage_stays_local :
    (∀ (files : Files) path bytes sample, files path = .ok bytes →
      provide files (some path) sample = .ok ⟨path, decode bytes⟩) ∧
    (∀ bytes cs, Replaces bytes cs ↔ cs = (decode bytes).toList) ∧
    (∀ (bytes : List UInt8) (h : bytes.toByteArray.IsValidUTF8),
      decode bytes = String.fromUTF8 bytes.toByteArray h) ∧
    (∀ front rest (b : UInt8), b < 0x80 → decode (front ++ [b] ++ rest) =
      decode front ++ String.singleton (Char.ofNat b.toNat) ++ decode rest) ∧
    (∀ bytes, (decode bytes).toList.filter (·.toNat < 0x80) =
      (bytes.filter (· < 0x80)).map fun b => Char.ofNat b.toNat) ∧
    (∀ bytes, (decode bytes).toList.splitOn '\n' =
      (bytes.splitOn 0x0a).map fun line => (decode line).toList) :=
  ⟨fun _ _ _ sample h => provide_file h sample, fun _ _ => replaces_iff,
    fun _ => decode_of_isValidUTF8, fun front rest _ hb => decode_append_ascii front hb rest,
    filter_toList_decode, splitOn_toList_decode⟩

/-- A byte order mark is a character.  A sequence that breaks off at the end of a line is one
replacement, and the newline and the line behind it are as they would be without it. -/
theorem damage_stays_local_mark_brokenOff :
    decode [0xef, 0xbb, 0xbf, 0x62] = "\ufeffb" ∧
    provide (fun _ => .ok [0x61, 0xe2, 0x82, 0x0a, 0x62]) (some "a.c") false =
      .ok ⟨"a.c", "a\ufffd\nb"⟩ := by
  obtain ⟨hfile, -, htext, hascii, -, -⟩ := damage_stays_local
  constructor
  · -- bytes of a text, so the text is what they encode
    have hvalid : ([0xef, 0xbb, 0xbf, 0x62] : List UInt8).toByteArray.IsValidUTF8 :=
      ⟨['\ufeff', 'b'], rfl⟩
    rw [htext _ hvalid, ← String.toByteArray_inj]
    rfl
  · -- the newline cuts the bytes in two, and each part is decoded by itself
    have hread : (fun _ => .ok [0x61, 0xe2, 0x82, 0x0a, 0x62] : Files) "a.c" =
        .ok ([0x61, 0xe2, 0x82] ++ [0x0a] ++ [0x62]) := rfl
    have hfront : decode [0x61, 0xe2, 0x82] = "a\ufffd" := by decide +kernel
    have hrest : decode [0x62] = "b" := by decide +kernel
    rw [hfile _ _ _ false hread, hascii _ _ 0x0a (by decide), hfront, hrest]
    rfl

end TokenCensus.Source

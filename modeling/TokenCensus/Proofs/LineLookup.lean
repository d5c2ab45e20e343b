import Mathlib.Data.List.Basic
import TokenCensus.Proofs.Line

/-!
# Places and offsets

A place says where an offset falls: in which line, and how many characters into it.  It says no less
than the offset.  The bytes of the lines before and of the characters before add up to the offset
again, so no two offsets have the same place, and places further down or further right belong to
greater offsets.

What the lines of a text are is told here without the function that cuts them.

## Key results

- `cutBehindNewlines_lines`, `CutBehindNewlines.eq_lines`: the lines of a text are a cut behind each
  newline, and the only one
- `placeAt?_eq_none_iff`: the offsets that have no place
- `finds_of_placeAt?`: what a place says of its offset
- `Place.Finds.lt_of_before`: places are in the order of their offsets
- `placeAt?_exact_and_invertible`: all of this together
-/

namespace TokenCensus.Text

/-! ## Lines -/

/-- `segments` is the text `cs`, cut behind each newline.  The last segment may lack one. -/
structure CutBehindNewlines (cs : List Char) (segments : List (List Char)) : Prop where
  flatten_eq : segments.flatten = cs
  ne_nil : ∀ segment ∈ segments, segment ≠ []
  newline_not_mem : ∀ segment ∈ segments, '\n' ∉ segment.dropLast
  ended : ∀ segment ∈ segments.dropLast, '\n' ∈ segment.getLast?

/-- A text without newlines before its end is one line. -/
theorem lines_of_not_mem_dropLast {cs : List Char} (hne : cs ≠ []) (h : '\n' ∉ cs.dropLast) :
    lines cs = [cs] := by
  have hlast : lines [cs.getLast hne] = [[cs.getLast hne]] := by
    rw [lines_cons, lines_nil, consLine]
    split <;> rfl
  have := lines_append_of_not_mem h hlast
  rwa [List.dropLast_append_getLast hne] at this

/-- There is only one such cut. -/
theorem CutBehindNewlines.eq_lines {cs : List Char} {segments : List (List Char)}
    (h : CutBehindNewlines cs segments) : segments = lines cs := by
  induction segments generalizing cs with
  | nil =>
    rw [← h.flatten_eq]
    rfl
  | cons segment segments ih =>
    obtain ⟨hne, hnes⟩ := List.forall_mem_cons.1 h.ne_nil
    obtain ⟨hnewline, hnewlines⟩ := List.forall_mem_cons.1 h.newline_not_mem
    have hcs := h.flatten_eq
    rw [List.flatten_cons] at hcs
    by_cases hlast : segments = []
    · subst hlast
      rw [List.flatten_nil, List.append_nil] at hcs
      rw [← hcs, lines_of_not_mem_dropLast hne hnewline]
    · -- the first segment ends with its newline, and the others are a cut of what follows it
      have hended := h.ended
      rw [List.dropLast_cons_of_ne_nil hlast, List.forall_mem_cons] at hended
      have hsegment := List.dropLast_append_getLast? '\n' hended.1
      have hrest := ih ⟨rfl, hnes, hnewlines, hended.2⟩
      rw [← hcs, ← hsegment, List.append_assoc, List.singleton_append,
        lines_append_newline hnewline, ← hrest]

/-- Cutting a text into its lines is such a cut. -/
theorem cutBehindNewlines_lines (cs : List Char) : CutBehindNewlines cs (lines cs) := by
  obtain ⟨ended, begun, hcs, hended, hbegun⟩ := exists_lines_split cs
  have hnewline : ∀ segment ∈ ended.map (· ++ ['\n']), '\n' ∈ segment.getLast? := by
    intro segment hsegment
    obtain ⟨line, -, rfl⟩ := List.mem_map.1 hsegment
    exact List.getLast?_concat
  have hne : ∀ segment ∈ ended.map (· ++ ['\n']), segment ≠ [] := by
    intro segment hsegment
    obtain ⟨line, -, rfl⟩ := List.mem_map.1 hsegment
    exact List.append_ne_nil_of_right_ne_nil line (List.cons_ne_nil '\n' [])
  have hlines : lines cs = ended.map (· ++ ['\n']) ++ lines begun := by
    rw [← hcs, lines_flatMap_append hended]
  have hflatten := flatten_lines cs
  have hinside : ∀ line ∈ lines cs, '\n' ∉ line.dropLast := newline_not_mem_dropLast_of_mem_lines
  by_cases hnil : begun = []
  · rw [hnil, lines_nil, List.append_nil] at hlines
    rw [hlines] at hflatten hinside ⊢
    exact ⟨hflatten, hne, hinside, fun segment hsegment =>
      hnewline segment (List.dropLast_subset _ hsegment)⟩
  · -- the line that has been begun is the last one
    have hinside' : '\n' ∉ begun.dropLast := fun hmem => hbegun (List.dropLast_subset begun hmem)
    rw [lines_of_not_mem_dropLast hnil hinside'] at hlines
    rw [hlines] at hflatten hinside ⊢
    refine ⟨hflatten, ?_, hinside, ?_⟩
    · -- every segment has a character, the begun one as well
      intro segment hsegment
      rcases List.mem_append.1 hsegment with hmem | hmem
      · exact hne segment hmem
      · rwa [List.mem_singleton.1 hmem]
    · rwa [List.dropLast_concat]

/-! ## Offsets with a place -/

/-- The text can be split at the byte `offset` without cutting through a character. -/
def IsBoundary (text : String) (offset : Nat) : Prop :=
  ∃ front back, text = front ++ back ∧ front.utf8ByteSize = offset

/-- Behind a boundary before the end of a text stands a character. -/
theorem lt_and_isBoundary_iff {text : String} {offset : Nat} :
    offset < text.utf8ByteSize ∧ IsBoundary text offset ↔
      ∃ front c back, text.toList = front ++ c :: back ∧ byteLength front = offset := by
  constructor
  · intro h
    obtain ⟨hlt, front, back, rfl, rfl⟩ := h
    -- what stands behind the boundary has a byte, so it has a character
    rw [String.utf8ByteSize_append, ← byteLength_toList back] at hlt
    have hpos : 0 < byteLength back.toList := by omega
    obtain ⟨c, cs, hback⟩ := List.exists_cons_of_ne_nil (ne_nil_of_byteLength_pos hpos)
    exact ⟨front.toList, c, cs, by rw [String.toList_append, hback], byteLength_toList front⟩
  · intro h
    obtain ⟨front, c, back, hsplit, rfl⟩ := h
    refine ⟨?_, String.ofList front, String.ofList (c :: back), ?_, utf8ByteSize_ofList front⟩
    · have := c.utf8Size_pos
      rw [← byteLength_toList, hsplit, byteLength_append, byteLength_cons]
      omega
    · rw [← String.toList_inj, hsplit]
      simp

/-- Before the end of a text there is a column only in front of characters. -/
theorem exists_split_of_columnFrom? {column offset k : Nat} {cs : List Char}
    (h : columnFrom? column offset cs = some k) (hlt : offset < byteLength cs) :
    ∃ front c back, cs = front ++ c :: back ∧ byteLength front = offset := by
  induction cs generalizing column offset with
  | nil => exact absurd hlt (Nat.not_lt_zero offset)
  | cons d cs ih =>
    cases offset with
    | zero => exact ⟨[], d, cs, rfl, rfl⟩
    | succ offset =>
      rw [columnFrom?] at h
      -- inside of `d` there is no column
      split at h
      · cases h
      · rw [byteLength_cons] at hlt
        obtain ⟨front, c, back, rfl, hfront⟩ := ih h (by omega)
        refine ⟨d :: front, c, back, rfl, ?_⟩
        rw [byteLength_cons, hfront]
        omega

theorem exists_split_of_placeFrom? {number offset : Nat} {ls : List (List Char)} {place : Place}
    (h : placeFrom? number offset ls = some place) :
    ∃ front c back, ls.flatten = front ++ c :: back ∧ byteLength front = offset := by
  induction ls generalizing number offset with
  | nil => exact nomatch h
  | cons line ls ih =>
    rw [placeFrom?] at h
    split at h
    · rename_i hlt
      obtain ⟨column, hcolumn, -⟩ := Option.map_eq_some_iff.1 h
      obtain ⟨front, c, back, rfl, hfront⟩ := exists_split_of_columnFrom? hcolumn hlt
      exact ⟨front, c, back ++ ls.flatten, by simp, hfront⟩
    · -- the whole line comes before the place
      obtain ⟨front, c, back, hrest, hfront⟩ := ih h
      refine ⟨line ++ front, c, back, by simp [hrest], ?_⟩
      rw [byteLength_append, hfront]
      omega

/-! ## What a place says -/

/-- The place is that of the byte `offset` of `text`: the number counts the newlines before the
offset, the line is the one with that number, and so many characters into it as the column says, the
offset is reached. -/
structure Place.Finds (place : Place) (text : String) (offset : Nat) : Prop where
  number_eq : ∃ front back, text = front ++ back ∧ front.utf8ByteSize = offset ∧
    place.number = 1 + front.toList.count '\n'
  exists_cut : ∃ segments, CutBehindNewlines text.toList segments ∧
    segments[place.number - 1]? = some place.line.toList ∧
    byteLength (segments.take (place.number - 1)).flatten +
      byteLength (place.line.toList.take place.column) = offset
  column_lt : place.column < place.line.toList.length

theorem count_newline_flatMap {ended : List (List Char)} (h : ∀ line ∈ ended, '\n' ∉ line) :
    (ended.flatMap (· ++ ['\n'])).count '\n' = ended.length := by
  induction ended with
  | nil => rfl
  | cons line ended ih =>
    obtain ⟨hline, hended⟩ := List.forall_mem_cons.1 h
    rw [List.flatMap_cons, List.count_append, List.count_append, List.count_eq_zero.2 hline,
      ih hended, List.length_cons, List.count_singleton_self]
    omega

/-- Every character has a place, which says where the character is. -/
theorem exists_finds_of_split {text : String} {front back : List Char} {c : Char}
    (h : text.toList = front ++ c :: back) :
    ∃ place, placeAt? text (byteLength front) = some place ∧
      place.Finds text (byteLength front) := by
  obtain ⟨ended, begun, rfl, hended, hbegun⟩ := exists_lines_split front
  obtain ⟨line, more, hlines⟩ := exists_lines_cons c back
  have hplace := placeAt?_of_split hended hbegun hlines
  rw [← h, String.ofList_toList] at hplace
  have hall : lines text.toList = ended.map (· ++ ['\n']) ++ (begun ++ c :: line) :: more := by
    rw [h, List.append_assoc, lines_flatMap_append hended, lines_append_of_not_mem hbegun hlines]
  refine ⟨_, hplace, ?_, ?_, ?_⟩
  · -- the front has as many newlines as lines have ended in it
    refine ⟨String.ofList (ended.flatMap (· ++ ['\n']) ++ begun), String.ofList (c :: back), ?_,
      utf8ByteSize_ofList _, ?_⟩
    · rw [← String.toList_inj, h]
      simp
    · rw [String.toList_ofList, List.count_append, count_newline_flatMap hended,
        List.count_eq_zero.2 hbegun]
      exact Nat.add_comm _ _
  · -- the line of the place is the first one that has not ended in the front
    have htake : (lines text.toList).take ended.length = ended.map (· ++ ['\n']) := by
      rw [hall, List.take_left' (List.length_map _)]
    refine ⟨lines text.toList, cutBehindNewlines_lines _, ?_, ?_⟩
    · simp [hall]
    · rw [Nat.add_sub_cancel, htake, ← List.flatMap_def, String.toList_ofList, List.take_left,
        byteLength_append]
  · simp

theorem exists_split_of_placeAt? {text : String} {offset : Nat} {place : Place}
    (h : placeAt? text offset = some place) :
    ∃ front c back, text.toList = front ++ c :: back ∧ byteLength front = offset := by
  have hsplit := exists_split_of_placeFrom? h
  rwa [flatten_lines] at hsplit

theorem finds_of_placeAt? {text : String} {offset : Nat} {place : Place}
    (h : placeAt? text offset = some place) : place.Finds text offset := by
  obtain ⟨front, c, back, hsplit, rfl⟩ := exists_split_of_placeAt? h
  obtain ⟨found, hfound, hfinds⟩ := exists_finds_of_split hsplit
  rw [h, Option.some.injEq] at hfound
  rwa [hfound]

/-- The offsets without a place are those at or beyond the end of the text, and those inside a
character. -/
theorem placeAt?_eq_none_iff {text : String} {offset : Nat} :
    placeAt? text offset = none ↔ text.utf8ByteSize ≤ offset ∨ ¬ IsBoundary text offset := by
  rw [← Nat.not_lt, ← not_and_or, lt_and_isBoundary_iff]
  constructor
  · intro hnone hsplit
    obtain ⟨front, c, back, hsplit, rfl⟩ := hsplit
    obtain ⟨place, hplace, -⟩ := exists_finds_of_split hsplit
    rw [hnone] at hplace
    exact nomatch hplace
  · intro hno
    cases hplace : placeAt? text offset with
    | none => rfl
    | some place => exact absurd (exists_split_of_placeAt? hplace) hno

/-! ## The order of places -/

/-- The first place comes before the second: in an earlier line, or further left in the same one. -/
def Place.Before (first second : Place) : Prop :=
  first.number < second.number ∨ first.number = second.number ∧ first.column < second.column

/-- More characters of a text take up more bytes, as long as there are more. -/
theorem byteLength_take_lt {cs : List Char} {i j : Nat} (hij : i < j) (hi : i < cs.length) :
    byteLength (cs.take i) < byteLength (cs.take j) := by
  obtain ⟨k, rfl⟩ := Nat.exists_eq_add_of_lt hij
  have hne : (cs.drop i).take (k + 1) ≠ [] := by simp [hi]
  have := byteLength_pos hne
  rw [Nat.add_assoc, List.take_add, byteLength_append]
  omega

namespace Place.Finds

variable {first second : Place} {text : String} {p q : Nat}

/-- Line and column of a place tell its offset. -/
theorem offset_eq (h : first.Finds text p) :
    byteLength ((lines text.toList).take (first.number - 1)).flatten +
      byteLength (first.line.toList.take first.column) = p := by
  obtain ⟨segments, hcut, -, hoffset⟩ := h.exists_cut
  rwa [hcut.eq_lines] at hoffset

theorem line_eq (h : first.Finds text p) :
    (lines text.toList)[first.number - 1]? = some first.line.toList := by
  obtain ⟨segments, hcut, hline, -⟩ := h.exists_cut
  rwa [hcut.eq_lines] at hline

/-- Lines are numbered from 1. -/
theorem number_pos (h : first.Finds text p) : 0 < first.number := by
  obtain ⟨front, back, -, -, hnumber⟩ := h.number_eq
  omega

/-- The place comes before the end of its line. -/
theorem lt_end (h : first.Finds text p) :
    p < byteLength ((lines text.toList).take first.number).flatten := by
  have hline : (lines text.toList).take first.number =
      (lines text.toList).take (first.number - 1) ++ [first.line.toList] := by
    conv_lhs => rw [← Nat.sub_add_cancel h.number_pos]
    rw [List.take_add_one, h.line_eq]
    rfl
  -- the column does not reach the end of the line
  have hcolumn := byteLength_take_lt h.column_lt h.column_lt
  rw [List.take_length] at hcolumn
  rw [← h.offset_eq, hline, List.flatten_append, byteLength_append, List.flatten_singleton]
  omega

/-- Places are in the order of their offsets. -/
theorem lt_of_before (hfirst : first.Finds text p) (hsecond : second.Finds text q)
    (hbefore : first.Before second) : p < q := by
  rcases hbefore with hnumber | ⟨hnumber, hcolumn⟩
  · -- the line of the first place ends before that of the second starts
    obtain ⟨between, hlines⟩ : (lines text.toList).take first.number <+:
        (lines text.toList).take (second.number - 1) :=
      List.take_prefix_take_left (Nat.le_sub_one_of_lt hnumber)
    have hend := hfirst.lt_end
    rw [← hsecond.offset_eq, ← hlines, List.flatten_append, byteLength_append]
    omega
  · -- in one line, more columns take up more bytes
    have hline := hfirst.line_eq
    rw [hnumber, hsecond.line_eq, Option.some.injEq] at hline
    have hlt := byteLength_take_lt hcolumn hfirst.column_lt
    rw [← hfirst.offset_eq, ← hsecond.offset_eq, hnumber, hline]
    omega

/-- No two offsets have the same line and the same column. -/
theorem eq_of_eq (hfirst : first.Finds text p) (hsecond : second.Finds text q)
    (hnumber : first.number = second.number) (hcolumn : first.column = second.column) : p = q := by
  have hline := hfirst.line_eq
  rw [hnumber, hsecond.line_eq, Option.some.injEq] at hline
  rw [← hfirst.offset_eq, ← hsecond.offset_eq, hnumber, hcolumn, hline]

end Place.Finds

/-- Of two places that are not the same, one comes before the other. -/
theorem Place.before_trichotomy (first second : Place) :
    first.Before second ∨ second.Before first ∨
      first.number = second.number ∧ first.column = second.column := by
  unfold Before
  omega

/-- Looking up a place is exact, and it can be undone.  An offset has a place exactly if it is a
boundary before the end of the text.  The number counts the newlines before it, the line is the one
with that number, and the bytes of the lines before and of the columns before add up to the offset.
So two offsets never have the same line and the same column, and places are in the order of their
offsets. -/
theorem placeAt?_exact_and_invertible (text : String) :
    (∀ offset, placeAt? text offset = none ↔
      text.utf8ByteSize ≤ offset ∨ ¬ IsBoundary text offset) ∧
    (∀ offset place, placeAt? text offset = some place → place.Finds text offset) ∧
    (∀ p q first second, placeAt? text p = some first → placeAt? text q = some second →
      (first.number = second.number → first.column = second.column → p = q) ∧
      (p < q ↔ first.Before second)) := by
  refine ⟨fun _ => placeAt?_eq_none_iff, fun _ _ => finds_of_placeAt?, ?_⟩
  intro p q first second hp hq
  have hfirst := finds_of_placeAt? hp
  have hsecond := finds_of_placeAt? hq
  refine ⟨hfirst.eq_of_eq hsecond, fun hlt => ?_, hfirst.lt_of_before hsecond⟩
  -- the order of the places cannot be the other way round, and they are not the same
  rcases first.before_trichotomy second with hbefore | hbefore | ⟨hnumber, hcolumn⟩
  · exact hbefore
  · have := hsecond.lt_of_before hfirst hbefore
    omega
  · have := hfirst.eq_of_eq hsecond hnumber hcolumn
    omega

/-- Behind a character of two bytes the column and the offset differ.  A newline belongs to the line
that it ends, an empty line has only its newline, and the last line needs none. -/
theorem placeAt?_accent_emptyLine :
    placeAt? "é\n\nab" 3 = some ⟨2, "\n", 0⟩ ∧ placeAt? "é\n\nab" 5 = some ⟨3, "ab", 1⟩ ∧
    Place.Finds ⟨2, "\n", 0⟩ "é\n\nab" 3 ∧ Place.Finds ⟨3, "ab", 1⟩ "é\n\nab" 5 ∧
    (3 < 5 ↔ Place.Before ⟨2, "\n", 0⟩ ⟨3, "ab", 1⟩) := by
  have hp : placeAt? "é\n\nab" 3 = some ⟨2, "\n", 0⟩ := by decide +kernel
  have hq : placeAt? "é\n\nab" 5 = some ⟨3, "ab", 1⟩ := by decide +kernel
  obtain ⟨-, hfinds, horder⟩ := placeAt?_exact_and_invertible "é\n\nab"
  exact ⟨hp, hq, hfinds 3 _ hp, hfinds 5 _ hq, (horder 3 5 _ _ hp hq).2⟩

end TokenCensus.Text

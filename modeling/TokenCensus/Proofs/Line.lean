import TokenCensus.Text.Line

/-!
# How a text falls into lines

A text is cut behind each newline, so each line but the last ends with its only newline.  A text
that is put together from lines with their newlines therefore falls into these lines again.

A place in a text is found by passing whole lines first, and then characters of the line that is
left.  Said of the text around the place, the lines that have ended before it give the number, and
what has been begun of the next line gives the column.

## Key results

- `newline_not_mem_dropLast_of_mem_lines`: only the end of a line is a newline
- `lines_flatMap_iff`: when the pieces that a text is put together from are its lines
- `mem_lines_of_placeFrom?`: a place lies before the end of one of the lines
- `placeAt?_of_split`: the place of a character, told from the text on both sides
-/

namespace TokenCensus.Text

/-! ## Cutting -/

/-- A line that ends stands first, whatever follows. -/
theorem lines_append_newline {xs : List Char} (h : '\n' ∉ xs) (rest : List Char) :
    lines (xs ++ '\n' :: rest) = (xs ++ ['\n']) :: lines rest := by
  induction xs with
  | nil => rfl
  | cons c xs ih =>
    rw [List.mem_cons, not_or] at h
    -- `c` is no newline, so it joins the line that the rest starts with
    rw [List.cons_append, lines_cons, ih h.2, consLine, if_neg (Ne.symm h.1)]
    rfl

/-- A text made of lines falls into these lines, and then into those of what follows. -/
theorem lines_flatMap_append {ended : List (List Char)} (h : ∀ line ∈ ended, '\n' ∉ line)
    (rest : List Char) :
    lines (ended.flatMap (· ++ ['\n']) ++ rest) = ended.map (· ++ ['\n']) ++ lines rest := by
  induction ended with
  | nil => rfl
  | cons line ended ih =>
    obtain ⟨hline, hended⟩ := List.forall_mem_cons.1 h
    rw [List.flatMap_cons, List.append_assoc, List.append_assoc, List.singleton_append,
      lines_append_newline hline, ih hended]
    rfl

theorem lines_flatMap {ended : List (List Char)} (h : ∀ line ∈ ended, '\n' ∉ line) :
    lines (ended.flatMap (· ++ ['\n'])) = ended.map (· ++ ['\n']) := by
  simpa using lines_flatMap_append h []

/-- The first line of a text that does not start at its end. -/
theorem exists_lines_cons (c : Char) (cs : List Char) :
    ∃ line more, lines (c :: cs) = (c :: line) :: more := by
  rw [lines_cons]
  unfold consLine
  split
  · -- the newline is a line by itself
    rename_i hc
    rw [hc]
    exact ⟨[], lines cs, rfl⟩
  · -- the character goes in front of the first line, or becomes one
    cases lines cs with
    | nil => exact ⟨[], [], rfl⟩
    | cons line more => exact ⟨line, more, rfl⟩

/-- What is put in front of a line becomes part of it. -/
theorem lines_append_of_not_mem {xs cs line : List Char} {more : List (List Char)}
    (hxs : '\n' ∉ xs) (h : lines cs = line :: more) :
    lines (xs ++ cs) = (xs ++ line) :: more := by
  induction xs with
  | nil => exact h
  | cons c xs ih =>
    rw [List.mem_cons, not_or] at hxs
    rw [List.cons_append, lines_cons, ih hxs.2, consLine, if_neg (Ne.symm hxs.1)]
    rfl

/-- Only the end of a line is a newline. -/
theorem newline_not_mem_dropLast_of_mem_lines {cs : List Char} :
    ∀ line ∈ lines cs, '\n' ∉ line.dropLast := by
  induction cs with
  | nil => exact nofun
  | cons c cs ih =>
    intro line hline
    rw [lines_cons] at hline
    unfold consLine at hline
    split at hline
    · -- a newline: its line has nothing before it
      rcases List.mem_cons.1 hline with rfl | hline
      · simp
      · exact ih line hline
    · rename_i hc
      cases hcs : lines cs with
      | nil =>
        rw [hcs] at hline
        rw [List.mem_singleton.1 hline]
        simp
      | cons first more =>
        rw [hcs] at hline ih
        rcases List.mem_cons.1 hline with rfl | hline
        · have hfirst := ih first List.mem_cons_self
          cases first with
          | nil => simp
          | cons d first =>
            rw [List.dropLast_cons_cons, List.mem_cons, not_or]
            exact ⟨Ne.symm hc, hfirst⟩
        · exact ih line (List.mem_cons_of_mem _ hline)

/-- Pieces that each end with a newline are the lines of their text exactly if none of them holds
another. -/
theorem lines_flatMap_iff (pieces : List (List Char)) :
    lines (pieces.flatMap (· ++ ['\n'])) = pieces.map (· ++ ['\n']) ↔
      ∀ piece ∈ pieces, '\n' ∉ piece := by
  constructor
  · intro h piece hpiece
    -- each piece is one of the lines, and its newline the last character
    have hline : piece ++ ['\n'] ∈ lines (pieces.flatMap (· ++ ['\n'])) :=
      h ▸ List.mem_map_of_mem hpiece
    have hend := newline_not_mem_dropLast_of_mem_lines _ hline
    rwa [List.dropLast_concat] at hend
  · exact lines_flatMap

/-- Every text is made of lines that have ended and of what has been begun of the next one. -/
theorem exists_lines_split (cs : List Char) :
    ∃ (ended : List (List Char)) (begun : List Char),
      ended.flatMap (· ++ ['\n']) ++ begun = cs ∧ (∀ line ∈ ended, '\n' ∉ line) ∧ '\n' ∉ begun := by
  induction cs with
  | nil => exact ⟨[], [], rfl, nofun, nofun⟩
  | cons c cs ih =>
    obtain ⟨ended, begun, rfl, hended, hbegun⟩ := ih
    by_cases hc : c = '\n'
    · subst hc
      exact ⟨[] :: ended, begun, rfl, List.forall_mem_cons.2 ⟨nofun, hended⟩, hbegun⟩
    · -- the character belongs to the first line, which may be the one just begun
      cases ended with
      | nil =>
        refine ⟨[], c :: begun, rfl, nofun, ?_⟩
        rw [List.mem_cons, not_or]
        exact ⟨Ne.symm hc, hbegun⟩
      | cons line ended =>
        rw [List.forall_mem_cons] at hended
        refine ⟨(c :: line) :: ended, begun, rfl, List.forall_mem_cons.2 ⟨?_, hended.2⟩, hbegun⟩
        rw [List.mem_cons, not_or]
        exact ⟨Ne.symm hc, hended.1⟩

/-- Numbers are written on one line. -/
theorem newline_not_mem_toDigits {base : Nat} (hbase : 1 < base) (n : Nat) :
    '\n' ∉ Nat.toDigits base n := by
  have hdigit : ∀ digit, Nat.digitChar digit ≠ '\n' := fun _ => Nat.digitChar_ne '\n' (by decide)
  -- digit by digit, from the last one
  induction n using Nat.strongRecOn with
  | ind n ih =>
    by_cases hlt : n < base
    · rw [Nat.toDigits_of_lt_base hlt, List.mem_singleton]
      exact (hdigit n).symm
    · rw [Nat.toDigits_of_base_le hbase (Nat.le_of_not_lt hlt), List.mem_append, not_or,
        List.mem_singleton]
      exact ⟨ih _ (Nat.div_lt_self (by omega) hbase), (hdigit _).symm⟩

/-! ## Places -/

theorem columnFrom?_append (column : Nat) (xs ys : List Char) :
    columnFrom? column (byteLength xs) (xs ++ ys) = some (column + xs.length) := by
  induction xs generalizing column with
  | nil => rw [byteLength_nil, columnFrom?, List.length_nil, Nat.add_zero]
  | cons c xs ih =>
    have hpos := c.utf8Size_pos
    obtain ⟨n, hn⟩ : ∃ n, byteLength (c :: xs) = n + 1 :=
      Nat.exists_eq_add_one.2 (byteLength_pos (List.cons_ne_nil c xs))
    -- the offset lies behind `c`, by as much as it lies behind the start of `xs`
    have hle : c.utf8Size + byteLength xs = n + 1 := hn
    have hrest : n + 1 - c.utf8Size = byteLength xs := by omega
    rw [hn, List.cons_append, columnFrom?, if_neg (by omega), hrest, ih, List.length_cons]
    congr 1
    omega

/-- The column of a place is the number of characters of its line before it. -/
theorem columnAt?_append (xs ys : List Char) :
    columnAt? (xs ++ ys) (byteLength xs) = some xs.length := by
  rw [columnAt?, columnFrom?_append, Nat.zero_add]

/-- Before the end of a line there is a column only for characters of the line. -/
theorem columnFrom?_lt {column offset k : Nat} {cs : List Char}
    (h : columnFrom? column offset cs = some k) (hlt : offset < byteLength cs) :
    k < column + cs.length := by
  induction cs generalizing column offset with
  | nil => simp at hlt
  | cons c cs ih =>
    rw [byteLength_cons] at hlt
    rw [List.length_cons]
    cases offset with
    | zero =>
      simp only [columnFrom?, Option.some.injEq] at h
      omega
    | succ offset =>
      rw [columnFrom?] at h
      -- inside of `c` there is no column
      split at h
      · exact nomatch h
      · have := ih h (by omega)
        omega

/-- A place lies in one of the lines, before the end of the line. -/
theorem mem_lines_of_placeFrom? {number offset : Nat} {ls : List (List Char)} {place : Place}
    (h : placeFrom? number offset ls = some place) :
    place.line.toList ∈ ls ∧ place.column < place.line.toList.length := by
  induction ls generalizing number offset with
  | nil => exact nomatch h
  | cons line ls ih =>
    rw [placeFrom?] at h
    split at h
    · -- the place lies in the first line
      rename_i hlt
      obtain ⟨column, hcolumn, rfl⟩ := Option.map_eq_some_iff.1 h
      have hlast := columnFrom?_lt hcolumn hlt
      simp only [String.toList_ofList, List.mem_cons, true_or, true_and]
      omega
    · obtain ⟨hline, hcolumn⟩ := ih h
      exact ⟨List.mem_cons_of_mem line hline, hcolumn⟩

/-- Whole lines are passed one by one. -/
theorem placeFrom?_flatMap_append (number offset : Nat) (ended more : List (List Char)) :
    placeFrom? number (byteLength (ended.flatMap (· ++ ['\n'])) + offset)
        (ended.map (· ++ ['\n']) ++ more) =
      placeFrom? (number + ended.length) offset more := by
  induction ended generalizing number with
  | nil => simp
  | cons line ended ih =>
    -- one line is taken off the offset, which lies behind it
    have hsub : byteLength ((line :: ended).flatMap (· ++ ['\n'])) + offset -
        byteLength (line ++ ['\n']) = byteLength (ended.flatMap (· ++ ['\n'])) + offset := by
      rw [List.flatMap_cons, byteLength_append]
      omega
    have hnot : ¬ byteLength ((line :: ended).flatMap (· ++ ['\n'])) + offset <
        byteLength (line ++ ['\n']) := by
      rw [List.flatMap_cons, byteLength_append]
      omega
    rw [List.map_cons, List.cons_append, placeFrom?, if_neg hnot, hsub, ih, List.length_cons]
    congr 1
    omega

/-- The place of a character: the lines that have ended before it give its number, and what has
been begun of the next one its column. -/
theorem placeAt?_of_split {ended : List (List Char)} {begun back line : List Char} {c : Char}
    {more : List (List Char)} (hended : ∀ line ∈ ended, '\n' ∉ line) (hbegun : '\n' ∉ begun)
    (hline : lines (c :: back) = (c :: line) :: more) :
    placeAt? (String.ofList (ended.flatMap (· ++ ['\n']) ++ begun ++ c :: back))
        (byteLength (ended.flatMap (· ++ ['\n']) ++ begun)) =
      some ⟨ended.length + 1, String.ofList (begun ++ c :: line), begun.length⟩ := by
  have hpos := c.utf8Size_pos
  -- what has been begun ends before the end of its line, since `c` is part of that
  have hlt : byteLength begun < byteLength (begun ++ c :: line) := by
    rw [byteLength_append, byteLength_cons]
    omega
  rw [placeAt?, String.toList_ofList, List.append_assoc, lines_flatMap_append hended,
    lines_append_of_not_mem hbegun hline, byteLength_append, placeFrom?_flatMap_append, placeFrom?,
    if_pos hlt, columnAt?_append, Nat.add_comm 1]
  rfl

end TokenCensus.Text

import Mathlib.Data.List.DropRight
import TokenCensus.Diagnostic.Render
import TokenCensus.Proofs.Line
import TokenCensus.Proofs.Tiling

/-!
# Where the caret stands

A diagnostic is shown with the line that it is in, and a caret points up at the character that it
is about.  The line loses its indentation and the caret moves left with it, and since the scanner
reports no blanks the character is never part of the indentation.  The line loses the white space
at its end too, and of white space the scanner knows less than Unicode does: a stray character can
be white space, and where nothing but white space follows it is not there to be pointed at.

## Key results

- `exists_split_of_mem_diagnostics`: a diagnostic is about a character that is no blank
- `exists_placeAt?`: every character has its place
- `quotes_quotedLine`: what is quoted of a line
- `exists_lines_render`: the five lines of a rendered diagnostic
- `pointsAt_of_line`: the caret stands below the character of a place
- `shownIn_of_mem_diagnostics`: how every diagnostic of a source is shown
-/

namespace TokenCensus

open Text (isWhiteSpace trimEnd byteLength placeAt?)

/-! ## The character of a diagnostic -/

/-- What the scanner reports lies in the text of the source. -/
theorem Grammar.Fault.isLexical_problem (fault : Fault) (lexeme : String) :
    (fault.problem lexeme).isLexical = true := by
  cases fault <;> rfl

/-- A rule that reports takes no lexeme that starts with a blank. -/
theorem Grammar.isBlank_eq_false_of_diagnose {before : Option Char} {rule : Rule} {c : Char}
    {cs : List Char} {n : Nat} {fault : Fault} (h : firstRule? before (c :: cs) = some (rule, n))
    (haction : rule.action = .diagnose fault) : isBlank c = false := by
  have hrule : rule ≠ .whitespace := by
    intro hrule
    rw [hrule] at haction
    exact nomatch haction
  exact stops_cons.1 (stops_isBlank_of_firstRule? h hrule)

/-- A diagnostic is about a character of the source, and not about a blank. -/
theorem exists_split_of_mem_diagnostics {text : String} {diagnostic : Diagnostic}
    (h : diagnostic ∈ (scan text).diagnostics) :
    diagnostic.problem.isLexical = true ∧ ∃ front c back, text.toList = front ++ c :: back ∧
      byteLength front = diagnostic.position ∧ Grammar.isBlank c = false := by
  obtain ⟨rule, fault, front, lexeme, back, haction, hproblem, htext, hposition, hfirst⟩ :=
    firstRule?_of_mem_diagnostics h
  have hne : lexeme ≠ [] := List.length_pos_iff.1 (Grammar.firstRule?_pos hfirst)
  obtain ⟨c, cs, rfl⟩ := List.exists_cons_of_ne_nil hne
  rw [hproblem]
  refine ⟨fault.isLexical_problem _, front, c, cs ++ back, htext, hposition, ?_⟩
  exact Grammar.isBlank_eq_false_of_diagnose hfirst haction

/-- Every character of a text has its place, in a line that holds a newline at its end only. -/
theorem exists_placeAt? {text : String} {front back : List Char} {c : Char}
    (h : text.toList = front ++ c :: back) :
    ∃ number begun rest,
      placeAt? text (byteLength front) =
        some ⟨number, String.ofList (begun ++ c :: rest), begun.length⟩ ∧
      '\n' ∉ (begun ++ c :: rest).dropLast := by
  -- begun after the last newline of the front, the line goes on behind the character
  obtain ⟨ended, begun, rfl, hended, hbegun⟩ := Text.exists_lines_split front
  obtain ⟨rest, more, hlines⟩ := Text.exists_lines_cons c back
  have hplace := Text.placeAt?_of_split hended hbegun hlines
  rw [← h, String.ofList_toList] at hplace
  have hline : c :: rest ∈ Text.lines (c :: back) := by
    rw [hlines]
    exact List.mem_cons_self
  have hend := Text.newline_not_mem_dropLast_of_mem_lines _ hline
  refine ⟨ended.length + 1, begun, rest, hplace, ?_⟩
  -- a newline is neither in what was begun nor before the end of what follows
  rw [List.dropLast_append_cons, List.mem_append, not_or]
  exact ⟨hbegun, hend⟩

/-! ## The quoted line -/

/-- A character that is no indentation ends it. -/
theorem indentWidth_append_cons_le (begun rest : List Char) {c : Char} (hc : isIndent c = false) :
    indentWidth (begun ++ c :: rest) ≤ begun.length := by
  rw [indentWidth, List.takeWhile_append]
  -- either all of `begun` is indentation, and then `c` ends it, or it ends inside of `begun`
  split
  · simp [hc]
  · exact (List.takeWhile_prefix isIndent).length_le

theorem dropWhile_isIndent_eq_drop (line : List Char) :
    line.dropWhile isIndent = line.drop (indentWidth line) := by
  have h := List.takeWhile_append_dropWhile (p := isIndent) (l := line)
  -- the indentation is dropped by its length
  calc line.dropWhile isIndent
      = (line.takeWhile isIndent ++ line.dropWhile isIndent).drop (indentWidth line) := by
        rw [indentWidth, List.drop_left]
    _ = line.drop (indentWidth line) := by rw [h]

/-- White space at the end is taken off a text, whatever is before it. -/
theorem Text.trimEnd_append_of_all {xs ys : List Char} (h : ∀ c ∈ ys, isWhiteSpace c = true) :
    trimEnd (xs ++ ys) = trimEnd xs := by
  rw [trimEnd, trimEnd, List.reverse_append, List.dropWhile_append_of_pos]
  exact fun c hc => h c (List.mem_reverse.1 hc)

/-- Nothing before the last character that is not white space is taken off a text. -/
theorem Text.trimEnd_append_of_not_all {xs ys : List Char}
    (h : ¬ ∀ c ∈ ys, isWhiteSpace c = true) : trimEnd (xs ++ ys) = xs ++ trimEnd ys := by
  have hne : ys.reverse.dropWhile isWhiteSpace ≠ [] := by
    intro hnil
    exact h fun c hc => List.dropWhile_eq_nil_iff.1 hnil c (List.mem_reverse.2 hc)
  -- some of `ys` stays, so the trimming never gets to `xs`
  have hnot : ¬ (ys.reverse.dropWhile isWhiteSpace).isEmpty = true := by
    rwa [List.isEmpty_iff]
  rw [trimEnd, trimEnd, List.reverse_append, List.dropWhile_append, if_neg hnot,
    List.reverse_append, List.reverse_reverse]

/-- What is taken off the end of a text is white space. -/
theorem Text.exists_trimEnd_append (cs : List Char) :
    ∃ blanks, trimEnd cs ++ blanks = cs ∧ ∀ c ∈ blanks, isWhiteSpace c = true :=
  ⟨cs.rtakeWhile isWhiteSpace, List.rdropWhile_append_rtakeWhile,
    fun _ => List.mem_rtakeWhile_imp⟩

/-- What is left of a text does not end with white space. -/
theorem Text.isWhiteSpace_getLast?_trimEnd (cs : List Char) :
    ∀ c ∈ (trimEnd cs).getLast?, isWhiteSpace c = false := by
  intro c hc
  rw [trimEnd, List.getLast?_reverse] at hc
  have hnot := List.head?_dropWhile_not isWhiteSpace cs.reverse
  rw [Option.mem_def.1 hc] at hnot
  exact hnot

/-- `quoted` is `line` without the characters at its front, as many as `indent`, and without the
white space at its end. -/
structure Quotes (line : List Char) (indent : Nat) (quoted : List Char) : Prop where
  exists_blanks : ∃ blanks, line.drop indent = quoted ++ blanks ∧
    ∀ b ∈ blanks, isWhiteSpace b = true
  last : ∀ b ∈ quoted.getLast?, isWhiteSpace b = false

theorem quotes_quotedLine (line : List Char) :
    Quotes line (indentWidth line) (quotedLine line) := by
  obtain ⟨blanks, happ, hblanks⟩ := Text.exists_trimEnd_append (line.dropWhile isIndent)
  refine ⟨⟨blanks, ?_, hblanks⟩, Text.isWhiteSpace_getLast?_trimEnd _⟩
  rw [← dropWhile_isIndent_eq_drop, quotedLine, happ]

/-- The newline at the end of a line is white space, and not quoted. -/
theorem newline_not_mem_quotedLine {line : List Char} (h : '\n' ∉ line.dropLast) :
    '\n' ∉ quotedLine line := by
  obtain ⟨⟨blanks, happ, -⟩, hlast⟩ := quotes_quotedLine line
  -- the line has nothing but white space, or a last character is quoted
  rcases List.eq_nil_or_concat (quotedLine line) with hnil | ⟨quoted, z, hquoted⟩
  · rw [hnil]
    exact nofun
  · rw [List.concat_eq_append] at hquoted
    rw [hquoted] at happ hlast ⊢
    -- all but the last character quoted comes before the end of the line
    have hline : line = (line.take (indentWidth line) ++ quoted) ++ z :: blanks := by
      rw [List.append_assoc, List.append_cons, ← happ, List.take_append_drop]
    rw [hline, List.dropLast_append_cons, List.mem_append, List.mem_append, not_or, not_or] at h
    -- the character itself may be the end of the line, but it is not white space
    have hz : isWhiteSpace z = false := hlast z (by simp)
    rw [List.mem_append, not_or, List.mem_singleton]
    refine ⟨h.1.2, ?_⟩
    rintro rfl
    exact absurd hz (by decide)

section QuotedCharacter

variable {begun rest : List Char} {c : Char}

/-- A line of which the indentation ends before the character `c`. -/
theorem quotedLine_append_cons (hc : isIndent c = false) :
    quotedLine (begun ++ c :: rest) =
      trimEnd (begun.drop (indentWidth (begun ++ c :: rest)) ++ c :: rest) := by
  rw [quotedLine, dropWhile_isIndent_eq_drop,
    List.drop_append_of_le_length (indentWidth_append_cons_le begun rest hc)]

/-- A character that is quoted stands in the quotation as far to the left as the indentation is
wide. -/
theorem quotedLine_getElem?_of_not_all (hc : isIndent c = false)
    (h : ¬ ∀ b ∈ c :: rest, isWhiteSpace b = true) :
    (quotedLine (begun ++ c :: rest))[begun.length - indentWidth (begun ++ c :: rest)]? =
      some c := by
  have hlength : (begun.drop (indentWidth (begun ++ c :: rest))).length =
      begun.length - indentWidth (begun ++ c :: rest) := List.length_drop
  -- `c` is the first character of what trimming leaves of `c :: rest`
  obtain ⟨blanks, happ, hblanks⟩ := Text.exists_trimEnd_append (c :: rest)
  rw [quotedLine_append_cons hc, Text.trimEnd_append_of_not_all h, ← hlength,
    List.getElem?_append_right (Nat.le_refl _), Nat.sub_self]
  cases htrim : trimEnd (c :: rest) with
  -- nothing is left, so all of it was white space
  | nil =>
    rw [htrim, List.nil_append] at happ
    exact absurd (happ ▸ hblanks) h
  | cons d ds =>
    rw [htrim, List.cons_append] at happ
    rw [(List.cons.inj happ).1]
    rfl

/-- Where nothing but white space is left of the line, the quotation has ended. -/
theorem length_quotedLine_le_of_all (hc : isIndent c = false)
    (h : ∀ b ∈ c :: rest, isWhiteSpace b = true) :
    (quotedLine (begun ++ c :: rest)).length ≤
      begun.length - indentWidth (begun ++ c :: rest) := by
  -- all from `c` on is trimmed, and what is before it is only made shorter
  rw [quotedLine_append_cons hc, Text.trimEnd_append_of_all h, ← List.length_drop]
  exact (List.rdropWhile_prefix isWhiteSpace _).length_le

end QuotedCharacter

/-! ## The five lines -/

/-- Nothing that is escaped is a newline. -/
theorem Text.newline_not_mem_escapeChar (marks : List Char) (extending : Bool) (c : Char) :
    '\n' ∉ (escapeChar marks extending c).toList := by
  have hcode : '\n' ∉ (codePoint c).toList := by
    simp [codePoint, newline_not_mem_toDigits (show 1 < 16 by decide)]
  unfold escapeChar
  split
  · decide
  · decide
  · decide
  · decide
  · decide
  · -- every escape of its own is closed; of the other characters none is the newline
    rename_i hnewline _
    have hc : '\n' ≠ c := fun h => hnewline h.symm
    split
    · simp [hc]
    · split
      · exact hcode
      · simp [hc]

theorem Text.newline_not_mem_bare (text : String) : '\n' ∉ (bare text).toList := by
  unfold bare
  cases text.toList with
  | nil => exact nofun
  -- only the character itself can be one, and it is escaped
  | cons c cs => simp [String.toList_join, newline_not_mem_escapeChar]

/-- The first line of a rendered diagnostic: the problem, and what there is to add. -/
def Diagnostic.problemLine (diagnostic : Diagnostic) : List Char :=
  ("Error: " ++
    match diagnostic.problem.tip? with
    | none => diagnostic.problem.name
    | some tip => diagnostic.problem.name ++ " (" ++ tip ++ ")").toList

/-- What the scanner reports is told in one line. -/
theorem Diagnostic.newline_not_mem_problemLine {diagnostic : Diagnostic}
    (h : diagnostic.problem.isLexical = true) : '\n' ∉ diagnostic.problemLine := by
  unfold problemLine
  cases hproblem : diagnostic.problem with
  -- the stray character is printed as its escape
  | unrecognisedCharacter character =>
    simp [Problem.tip?, Problem.name, Text.newline_not_mem_bare]
  | unterminatedComment => decide +kernel
  | unterminatedLiteral => decide +kernel
  -- these are reported without a source
  | noInputSelected | fileRead _ _ =>
    rw [hproblem] at h
    exact nomatch h

namespace Text.Place

/-- The bar below the problem, with as much space before it as the number of the line takes. -/
def margin (place : Place) : List Char :=
  List.replicate (place.number.repr.length + 1) ' ' ++ ['|']

/-- The quoted line, behind its number. -/
def quoteLine (place : Place) : List Char :=
  place.number.repr.toList ++ " | ".toList ++ quotedLine place.line.toList

/-- The caret and what leads to it. -/
def caretLine (place : Place) : List Char :=
  place.margin ++ ' ' :: List.replicate (caretWidth place - 1) '-' ++ ['^']

/-- The number of characters before the caret. -/
def caretColumn (place : Place) : Nat :=
  place.number.repr.length + 3 + (place.column - indentWidth place.line.toList)

end Text.Place

theorem toList_renderHeader (diagnostic : Diagnostic) (name : String) :
    (diagnostic.renderHeader name).toList =
      [diagnostic.problemLine, ("-> " ++ name).toList].flatMap (· ++ ['\n']) := by
  unfold Diagnostic.renderHeader Diagnostic.problemLine
  cases diagnostic.problem.tip? <;> simp

theorem toList_renderPlace (place : Text.Place) :
    (renderPlace place).toList =
      [place.margin, place.quoteLine, place.caretLine].flatMap (· ++ ['\n']) := by
  simp [renderPlace, Text.Place.margin, Text.Place.quoteLine, Text.Place.caretLine, repeated]

/-- A diagnostic that can be rendered is shown in five lines. -/
theorem exists_lines_render {diagnostic : Diagnostic} {source name : String} {place : Text.Place}
    (hlexical : diagnostic.problem.isLexical = true) (hname : '\n' ∉ name.toList)
    (hplace : placeAt? source diagnostic.position = some place)
    (hline : '\n' ∉ place.line.toList.dropLast) (hwidth : caretWidth place ≤ caretWidthLimit) :
    ∃ rendered, diagnostic.render source name = .ok rendered ∧
      Text.lines rendered.toList =
        [diagnostic.problemLine, ("-> " ++ name).toList, place.margin, place.quoteLine,
          place.caretLine].map (· ++ ['\n']) := by
  -- each of the five lines lacks a newline, so the newlines put behind them are the only ones
  have hproblem := Diagnostic.newline_not_mem_problemLine hlexical
  have hmargin : '\n' ∉ place.margin := by simp [Text.Place.margin]
  have hquote : '\n' ∉ place.quoteLine := by
    simp [Text.Place.quoteLine, Text.newline_not_mem_toDigits, newline_not_mem_quotedLine hline]
  have hcaret : '\n' ∉ place.caretLine := by simp [Text.Place.caretLine, hmargin]
  refine ⟨diagnostic.renderHeader name ++ renderPlace place, ?_, ?_⟩
  · rw [Diagnostic.render, hplace]
    -- the check for the width is the one in `render`
    exact if_pos hwidth
  · rw [String.toList_append, toList_renderHeader, toList_renderPlace, ← List.flatMap_append]
    apply Text.lines_flatMap
    simp [hproblem, hname, hmargin, hquote, hcaret]

/-! ## The caret -/

/-- `quote` and `pointer` are the lines that quote the line of `place`, as `quoted`, and point at the
character `c` in it. -/
structure PointsAt (place : Text.Place) (c : Char) (quoted quote pointer : List Char) : Prop where
  quotes : Quotes place.line.toList (indentWidth place.line.toList) quoted
  quote_eq : quote = place.number.repr.toList ++ [' ', '|', ' '] ++ quoted
  /-- The caret stands at its column, and nowhere else. -/
  exists_front : ∃ front, pointer = front ++ ['^'] ∧ '^' ∉ front ∧ front.length = place.caretColumn
  /-- Above the caret stands the character that is as far to the left as the indentation is wide. -/
  above : quote[place.caretColumn]? = quoted[place.column - indentWidth place.line.toList]?
  shown : (¬ ∀ b ∈ place.line.toList.drop place.column, isWhiteSpace b = true) →
    quoted[place.column - indentWidth place.line.toList]? = some c
  /-- With nothing but white space from the place on, the quotation ends before the caret. -/
  hidden : (∀ b ∈ place.line.toList.drop place.column, isWhiteSpace b = true) →
    quoted.length ≤ place.column - indentWidth place.line.toList

theorem caret_not_mem_margin (place : Text.Place) : '^' ∉ place.margin := by
  simp [Text.Place.margin]

/-- The two lines point at the character that the place is that of, unless it is indentation. -/
theorem pointsAt_of_line {number : Nat} {begun rest : List Char} {c : Char}
    (hc : isIndent c = false) :
    let place : Text.Place := ⟨number, String.ofList (begun ++ c :: rest), begun.length⟩
    PointsAt place c (quotedLine place.line.toList) place.quoteLine place.caretLine := by
  intro place
  have hline : place.line.toList = begun ++ c :: rest := String.toList_ofList
  have hdrop : place.line.toList.drop place.column = c :: rest := by
    rw [hline]
    exact List.drop_left
  refine ⟨quotes_quotedLine _, by simp [Text.Place.quoteLine], ?_, ?_, ?_, ?_⟩
  · -- dashes and the margin lead to the caret, and they have no caret in them
    refine ⟨place.margin ++ ' ' :: List.replicate (caretWidth place - 1) '-', rfl, ?_, ?_⟩
    · simp [caret_not_mem_margin]
    · simp [Text.Place.margin, caretWidth, Text.Place.caretColumn]
      omega
  · -- number and bar are as long as the margin and the space behind it
    have hnumber : (place.number.repr.toList ++ " | ".toList).length =
        place.number.repr.length + 3 := by
      rw [List.length_append, String.length_toList]
      rfl
    rw [Text.Place.quoteLine, Text.Place.caretColumn, ← hnumber,
      List.getElem?_append_right (Nat.le_add_right _ _), Nat.add_sub_cancel_left]
  · -- quoted as long as some of `c :: rest` is not white space, and trimmed otherwise
    rw [hdrop, hline]
    exact quotedLine_getElem?_of_not_all hc
  · rw [hdrop, hline]
    exact length_quotedLine_le_of_all hc

/-- The diagnostic is about a character of the source that has a place behind the indentation of its
line, and when it is rendered, in five lines, the caret points at that character. -/
def Diagnostic.ShownIn (diagnostic : Diagnostic) (source name : String) : Prop :=
  ∃ place front c back,
    source.toList = front ++ c :: back ∧ byteLength front = diagnostic.position ∧
    placeAt? source diagnostic.position = some place ∧
    place.line.toList[place.column]? = some c ∧
    indentWidth place.line.toList ≤ place.column ∧
    (caretWidth place ≤ caretWidthLimit → ∃ rendered first second third quote pointer quoted,
      diagnostic.render source name = .ok rendered ∧
      Text.lines rendered.toList = [first, second, third, quote, pointer].map (· ++ ['\n']) ∧
      PointsAt place c quoted quote pointer)

theorem isIndent_eq_false_of_isBlank {c : Char} (h : Grammar.isBlank c = false) :
    isIndent c = false := by
  -- spaces and tabs are two of the six blanks
  simp only [Grammar.isBlank, Bool.or_eq_false_iff] at h
  rw [isIndent, h.1.1.1.1.1, h.1.1.1.1.2]
  rfl

/-- Every diagnostic of a source is shown with a caret that points at its character. -/
theorem shownIn_of_mem_diagnostics {source name : String} (hname : '\n' ∉ name.toList)
    {diagnostic : Diagnostic} (h : diagnostic ∈ (scan source).diagnostics) :
    diagnostic.ShownIn source name := by
  obtain ⟨hlexical, front, c, back, hsource, hposition, hblank⟩ := exists_split_of_mem_diagnostics h
  have hc := isIndent_eq_false_of_isBlank hblank
  obtain ⟨number, begun, rest, hplace, hend⟩ := exists_placeAt? hsource
  rw [hposition] at hplace
  refine ⟨_, front, c, back, hsource, hposition, hplace, ?_, ?_, fun hwidth => ?_⟩
  · simp
  · rw [String.toList_ofList]
    exact indentWidth_append_cons_le begun rest hc
  · -- a caret that fits is drawn below it
    obtain ⟨rendered, hrendered, hlines⟩ :=
      exists_lines_render hlexical hname hplace (by rwa [String.toList_ofList]) hwidth
    exact ⟨rendered, _, _, _, _, _, _, hrendered, hlines, pointsAt_of_line hc⟩

/-- A stray character behind an indentation. -/
theorem shownIn_indented_dollar :
    '\n' ∉ "b.c".toList ∧
    (⟨.unrecognisedCharacter "$", 15⟩ : Diagnostic) ∈ (scan "int a;\n    b = $;\n").diagnostics ∧
    (⟨.unrecognisedCharacter "$", 15⟩ : Diagnostic).ShownIn "int a;\n    b = $;\n" "b.c" := by
  have hname : '\n' ∉ "b.c".toList := by decide
  have hmem : (⟨.unrecognisedCharacter "$", 15⟩ : Diagnostic) ∈
      (scan "int a;\n    b = $;\n").diagnostics := by
    decide +kernel
  exact ⟨hname, hmem, shownIn_of_mem_diagnostics hname hmem⟩

-- a space that does not break is reported, but at the end of a line it is not quoted
example :
    (⟨.unrecognisedCharacter "\u00a0", 5⟩ : Diagnostic).render "  b =\u00a0\n" "b.c" =
      .ok ("Error: UnrecognisedCharacter (`\\u\x7ba0\x7d` is not part of the language and was " ++
        "skipped)\n-> b.c\n  |\n1 | b =\n  | ---^\n") := by
  decide +kernel

end TokenCensus

import TokenCensus.Proofs.Caret
import TokenCensus.Proofs.InPlace
import TokenCensus.Proofs.RunOutput

/-!
# When a run breaks off

A run can break off in two places.  A search that starts beyond the end of a text has no answer,
and a caret that is too far to the right cannot be placed.  The first never happens, as each search
starts where the last match ended.  The second happens exactly for a diagnostic that stands too far
behind the indentation of its line.

`run` says that a run breaks off, and not what it has written by then.  So the run is described a
second time, action by action, with the sinks as a state that stays when the run breaks off:
`perform`.  The two agree, and where the run breaks off the sinks are as they were.

## Key results

- `SearchesTo.searchFrom_eq`: the searches of a scan never leave the text
- `perform_eq`: what the actions of a run come to
- `renderAll_eq_error_iff`: the diagnostics that cannot be rendered
- `run_breaks_off_iff`: when a run breaks off, and what it has written by then
-/

namespace TokenCensus

open Text (byteLength placeAt?)

/-! ## Searching from match to match -/

/-- Seeking arrives at the end, or not before the offset that is sought. -/
theorem Cursor.le_offset_seekFrom (target : Nat) (before : Option Char) (offset : Nat)
    (cs : List Char) :
    (seekFrom target before offset cs).rest = [] ∨
      target ≤ (seekFrom target before offset cs).offset := by
  induction cs generalizing before offset with
  | nil => exact .inl rfl
  | cons c cs ih =>
    rw [seekFrom]
    split
    · rename_i hle
      exact .inr hle
    · exact ih (some c) (offset + c.utf8Size)

/-- A match ends behind the byte that the search for it started from. -/
theorem lt_stop_of_matchAt {text : String} {position : Nat} {m : Match}
    (h : matchAt text position = .ok (some m)) : position < m.stop := by
  unfold matchAt at h
  split at h
  · exact nomatch h
  · rw [Except.ok.injEq, Option.map_eq_some_iff] at h
    obtain ⟨⟨found, after⟩, hnext, rfl⟩ := h
    -- at the end of the text there is no match
    have hne : (Cursor.seek text.toList position).rest ≠ [] := fun hnil => by
      rw [Cursor.next?_eq_none_iff.2 hnil] at hnext
      exact nomatch hnext
    have hoffset := (Cursor.le_offset_seekFrom position none 0 text.toList).resolve_left hne
    obtain ⟨⟨rule, n⟩, hfirst, heq⟩ := Option.map_eq_some_iff.1 hnext
    cases heq
    -- the lexeme takes a character at least, so it ends behind where it starts
    have hlexeme : (Cursor.seek text.toList position).rest.take n ≠ [] := by
      have := Grammar.firstRule?_pos hfirst
      rw [Ne, List.take_eq_nil_iff, not_or]
      exact ⟨by omega, hne⟩
    have hpos := Text.byteLength_pos hlexeme
    exact Nat.lt_of_le_of_lt hoffset (Nat.lt_add_of_pos_right hpos)

/-- Searches a text from the byte `position`, and then each time from where the last match
ended. -/
def searchFrom (text : String) (position : Nat) : Except OutOfText (List Match) :=
  if position < text.utf8ByteSize then
    match _h : matchAt text position with
    | .error outOfText => .error outOfText
    | .ok none => .ok []
    | .ok (some m) => (searchFrom text m.stop).map (m :: ·)
  else .ok []
termination_by text.utf8ByteSize - position
decreasing_by
  have := lt_stop_of_matchAt _h
  omega

/-- Searches that come to the end of the text never leave it. -/
theorem SearchesTo.searchFrom_eq {text : String} {position : Nat} {ms : List Match}
    (h : SearchesTo text position ms) : searchFrom text position = .ok ms := by
  induction h with
  | done hend => rw [searchFrom, if_neg (by omega)]
  | next hlt hmatch _ ih =>
    rw [searchFrom, if_pos hlt]
    -- the two branches without a match contradict `hmatch`
    split
    · rename_i hsome
      rw [hmatch] at hsome
      exact nomatch hsome
    · rename_i hsome
      rw [hmatch] at hsome
      exact nomatch hsome
    · rename_i hsome
      rw [hmatch] at hsome
      cases hsome
      -- the match is the one in the list, and the search goes on where it ended
      rw [ih]
      rfl

/-- The searches of a scan find its matches. -/
theorem searchFrom_zero (text : String) : searchFrom text 0 = .ok (allMatches text) :=
  (searchesTo_append "" text).2.1.searchFrom_eq

namespace Command

/-! ## A run, action by action -/

/-- Why a run breaks off. -/
inductive Breakdown where
  | outOfText (failure : OutOfText)
  | caretTooWide (failure : CaretTooWide)
deriving DecidableEq, Repr

/-- The sinks of a run. -/
structure Sinks where
  out : Sink
  err : Sink
deriving DecidableEq, Repr

/-- What a run does: it may write to the sinks, and it may break off. -/
abbrev Act := ExceptT Breakdown (StateM Sinks)

/-- Goes on with a result, or breaks off without one. -/
def attempt {ε α : Type} (breakdown : ε → Breakdown) : Except ε α → Act α
  | .ok a => pure a
  | .error e => throw (breakdown e)

/-- Writes to the sink for reports, and tells whether it has taken all. -/
def writeOut (text : String) : Act Bool :=
  modifyGet fun sinks => ((sinks.out.write text).1, { sinks with out := (sinks.out.write text).2 })

/-- Writes to the sink for diagnostics, and tells whether it has taken all. -/
def writeErr (text : String) : Act Bool :=
  modifyGet fun sinks => ((sinks.err.write text).1, { sinks with err := (sinks.err.write text).2 })

/-- Writes a report to its sink and flushes, and tells whether both have succeeded. -/
def deliver (text : String) : Act Bool :=
  modifyGet fun sinks =>
    ((sinks.out.writeAndFlush text).1, { sinks with out := (sinks.out.writeAndFlush text).2 })

theorem run_writeErr_bind {α : Type} (text : String) (next : Bool → Act α) (out err : Sink) :
    (writeErr text >>= next).run.run ⟨out, err⟩ =
      (next (err.write text).1).run.run ⟨out, (err.write text).2⟩ := rfl

theorem run_deliver_bind {α : Type} (text : String) (next : Bool → Act α) (out err : Sink) :
    (deliver text >>= next).run.run ⟨out, err⟩ =
      (next (out.writeAndFlush text).1).run.run ⟨(out.writeAndFlush text).2, err⟩ := rfl

/-- Performs a run. -/
def perform (options : Options) (files : Files) : Act Status := do
  match Source.provide files options.input options.sample with
  | .error diagnostic =>
    match diagnostic.problem with
    | .noInputSelected => discard (writeOut "No file selected. Exiting...\n")
    | _ => discard (writeErr ("error: " ++ diagnostic.display ++ "\n"))
    return .failure
  | .ok source =>
    -- what can break off a run comes before anything is written
    let ms ← attempt .outOfText (searchFrom source.text 0)
    let scanned := Scan.ofMatches ms
    let diagnostics ← attempt .caretTooWide (renderAll scanned.diagnostics source)
    if ← writeErr diagnostics then
      if ← deliver (reportText options scanned) then
        return if rejects options scanned then .failure else .success
    return .failure

/-- What the actions of a run come to: they end as the run does, and if the run breaks off then
nothing has been written. -/
theorem perform_eq (options : Options) (files : Files) (out err : Sink) :
    (perform options files).run.run ⟨out, err⟩ =
      match run options files out err with
      | .ok outcome => (.ok outcome.status, ⟨outcome.out, outcome.err⟩)
      | .error tooWide => (.error (.caretTooWide tooWide), ⟨out, err⟩) := by
  unfold perform run
  -- without a source both come to the refusal
  cases Source.provide files options.input options.sample with
  | error diagnostic =>
    unfold refuse
    obtain ⟨problem, position⟩ := diagnostic
    cases problem <;> rfl
  -- with one, the searches succeed, and rendering alone can still break off
  | ok source =>
    have hscan : Scan.ofMatches (allMatches source.text) = scan source.text := rfl
    simp only [searchFrom_zero, attempt, pure_bind, hscan]
    cases renderAll (scan source.text).diagnostics source with
    | error tooWide => rfl
    | ok diagnostics =>
      simp only [pure_bind, Except.map]
      rw [run_writeErr_bind, publish]
      rcases err.write diagnostics with ⟨errTook, err⟩
      cases errTook with
      -- the sink has not taken the diagnostics, and neither goes on to the report
      | false => rfl
      | true =>
        rw [if_pos rfl, run_deliver_bind]
        rcases out.writeAndFlush (reportText options (scan source.text)) with ⟨outTook, out⟩
        cases outTook <;> rfl

end Command

/-! ## What cannot be rendered -/

/-- The diagnostic stands so far behind the indentation of its line that no caret can be placed
there. -/
def Diagnostic.OutOfReach (diagnostic : Diagnostic) (source : String) : Prop :=
  ∃ place, placeAt? source diagnostic.position = some place ∧
    indentWidth place.line.toList + caretWidthLimit ≤ place.column

theorem Diagnostic.render_eq_error_iff {diagnostic : Diagnostic} {source : String}
    (name : String) :
    (∃ tooWide, diagnostic.render source name = .error tooWide) ↔
      diagnostic.OutOfReach source := by
  unfold render OutOfReach
  cases placeAt? source diagnostic.position with
  -- a diagnostic without a place is rendered as a line
  | none => simp
  | some place =>
    -- a caret is as wide as the distance from the indentation, and one more
    have hwidth : caretWidth place ≤ caretWidthLimit ↔
        ¬ indentWidth place.line.toList + caretWidthLimit ≤ place.column := by
      rw [caretWidth]
      have : 0 < caretWidthLimit := by decide
      omega
    -- the check in `render`, on both sides
    by_cases h : caretWidth place ≤ caretWidthLimit
    · simp [h, hwidth.1 h]
    · simp [h, not_not.1 (mt hwidth.2 h)]

/-- In a source whose lines are not longer than a caret can be placed, all diagnostics are in
reach. -/
theorem Diagnostic.not_outOfReach_of_lines {diagnostic : Diagnostic} {source : String}
    (h : ∀ line ∈ Text.lines source.toList, line.length ≤ caretWidthLimit) :
    ¬ diagnostic.OutOfReach source := by
  intro hreach
  obtain ⟨place, hplace, hfar⟩ := hreach
  -- columns lie inside of their line, so the line would be too long
  obtain ⟨hline, hcolumn⟩ := Text.mem_lines_of_placeFrom? hplace
  have := h _ hline
  omega

/-- A list of results breaks off at the first that is missing. -/
theorem mapM_eq_error_iff {α β ε : Type} {f : α → Except ε β} {xs : List α} :
    (∃ e, xs.mapM f = .error e) ↔ ∃ x ∈ xs, ∃ e, f x = .error e := by
  induction xs with
  | nil => simp [pure, Except.pure]
  | cons x xs ih =>
    rw [List.mapM_cons, List.exists_mem_cons_iff]
    cases hx : f x with
    -- the first result is missing
    | error e => simp [bind, Except.bind]
    | ok y =>
      -- it is there, so it depends on the others
      rw [← ih]
      cases hxs : xs.mapM f <;> simp [bind, Except.bind, pure, Except.pure]

namespace Command

/-- The diagnostics cannot be rendered if one of them is out of reach. -/
theorem renderAll_eq_error_iff {diagnostics : List Diagnostic} {source : Source} :
    (∃ tooWide, renderAll diagnostics source = .error tooWide) ↔
      ∃ diagnostic ∈ diagnostics, diagnostic.OutOfReach source.text := by
  simp only [← Diagnostic.render_eq_error_iff source.name, ← mapM_eq_error_iff]
  unfold renderAll
  cases diagnostics.mapM fun diagnostic => diagnostic.render source.text source.name <;>
    simp [bind, Except.bind, pure, Except.pure]

theorem run_eq_error_iff {options : Options} {files : Files} {out err : Sink} :
    (∃ tooWide, run options files out err = .error tooWide) ↔
      ∃ source, Source.provide files options.input options.sample = .ok source ∧
        ∃ diagnostic ∈ (scan source.text).diagnostics, diagnostic.OutOfReach source.text := by
  unfold run
  cases Source.provide files options.input options.sample with
  -- a run without a source is refused, which is an end
  | error diagnostic => simp
  | ok source =>
    -- the sinks decide how a run with a source ends, but not whether it does
    simp only [Except.ok.injEq, exists_eq_left', ← renderAll_eq_error_iff]
    cases renderAll (scan source.text).diagnostics source <;> simp [Except.map]

/-! ## All runs -/

/-- When a run breaks off, and what it has written by then.  It breaks off exactly if it has a
source with a diagnostic that is out of reach, whatever it is asked to do with it and wherever it
writes.  Then it has written nothing; otherwise it comes to its end.  A source breaks off no run if
none of its lines is longer than a caret can be placed. -/
theorem run_breaks_off_iff (options : Options) (files : Files) (out err : Sink) :
    ((∃ tooWide, run options files out err = .error tooWide) ↔
      ∃ source, Source.provide files options.input options.sample = .ok source ∧
        ∃ diagnostic ∈ (scan source.text).diagnostics, diagnostic.OutOfReach source.text) ∧
    ((perform options files).run.run ⟨out, err⟩ =
      match run options files out err with
      | .ok outcome => (.ok outcome.status, ⟨outcome.out, outcome.err⟩)
      | .error tooWide => (.error (.caretTooWide tooWide), ⟨out, err⟩)) ∧
    (∀ source, Source.provide files options.input options.sample = .ok source →
      (∀ line ∈ Text.lines source.text.toList, line.length ≤ caretWidthLimit) →
      ∃ outcome, run options files out err = .ok outcome) := by
  -- the condition and the actions are settled above, and the short lines are left
  refine ⟨run_eq_error_iff, perform_eq options files out err, fun source hprovide hlines => ?_⟩
  cases hrun : run options files out err with
  | ok outcome => exact ⟨outcome, rfl⟩
  -- a diagnostic out of reach would stand in one of the lines of this very source
  | error tooWide =>
    obtain ⟨source', hprovide', diagnostic, -, hreach⟩ := run_eq_error_iff.1 ⟨tooWide, hrun⟩
    rw [hprovide, Except.ok.injEq] at hprovide'
    subst hprovide'
    exact absurd hreach (Diagnostic.not_outOfReach_of_lines hlines)

end Command

/-! ## A run that breaks off -/

/-- A name of `n` characters, and a stray one behind it. -/
def longName (n : Nat) : List Char := List.replicate n 'a' ++ ['$']

theorem byteLength_replicate (n : Nat) : byteLength (List.replicate n 'a') = n := by
  induction n with
  | zero => rfl
  | succ n ih =>
    have hsize : 'a'.utf8Size = 1 := by decide
    rw [List.replicate_succ, Text.byteLength_cons, ih, hsize, Nat.add_comm]

/-- The stray character is reported, with the name before it. -/
theorem diagnostics_longName {n : Nat} (hn : 6 < n) :
    (scan (String.ofList (longName n))).diagnostics = [⟨.unrecognisedCharacter "$", n⟩] := by
  -- no keyword is as long as the name
  have hshort : ∀ word ∈ Grammar.keywordSpellings, word.length ≤ 6 := by decide
  have hword : Grammar.Lexeme.IsIdentifier (List.replicate n 'a') := by
    refine ⟨'a', List.replicate (n - 1) 'a', ?_, by decide, fun d hd => ?_⟩
    · rw [← List.replicate_succ, Nat.sub_add_cancel (by omega)]
    · rw [List.eq_of_mem_replicate hd]
      decide
  have hname : Grammar.firstRule? none (List.replicate n 'a' ++ ['$']) =
      some (.identifier, (List.replicate n 'a').length) := by
    -- the name ends where a character follows that is not of a word
    refine Grammar.firstRule?_append_iff.2 ⟨⟨hword, Grammar.stops_cons.2 (by decide)⟩, ?_⟩
    -- the name is none of the keywords
    intro _ hmem
    have := hshort _ hmem
    rw [List.length_replicate] at this
    omega
  have hknown : ∀ c ∈ ['$'], Grammar.Rule.isKnown c = false :=
    List.forall_mem_singleton.2 (by decide)
  -- the stray character is not one that any rule starts with
  have hstray : Grammar.firstRule? (List.replicate n 'a').getLast? (['$'] ++ []) =
      some (.unrecognised, ['$'].length) :=
    Grammar.firstRule?_append_iff.2 ⟨⟨'$', rfl⟩, hknown⟩
  have hrun : Run none (String.ofList (longName n)).toList
      [⟨.identifier, List.replicate n 'a'⟩, ⟨.unrecognised, ['$']⟩] := by
    rw [String.toList_ofList]
    exact .cons hname (.cons hstray .nil)
  rw [scan_eq_ofPieces hrun, Scan.ofPieces_cons, Scan.ofPieces_of_emit rfl,
    Scan.ofPieces_of_diagnose rfl, Nat.zero_add]
  -- the name gives a token; the diagnostic is that of the stray character, behind it
  show [(⟨_, byteLength (List.replicate n 'a')⟩ : Diagnostic)] = _
  rw [byteLength_replicate]
  rfl

/-- No caret reaches behind a name that is long enough. -/
theorem outOfReach_longName {n : Nat} (hn : caretWidthLimit ≤ n) :
    (⟨.unrecognisedCharacter "$", n⟩ : Diagnostic).OutOfReach (String.ofList (longName n)) := by
  have hname : '\n' ∉ List.replicate n 'a' := fun hmem => by
    exact absurd (List.eq_of_mem_replicate hmem) (by decide)
  have hended : ∀ line ∈ ([] : List (List Char)), '\n' ∉ line := by simp
  -- the text is a single line without a newline
  have hline : Text.lines ['$'] = ['$'] :: [] := rfl
  have hplace := Text.placeAt?_of_split hended hname hline
  simp only [List.flatMap_nil, List.nil_append, byteLength_replicate,
    List.length_replicate] at hplace
  refine ⟨_, hplace, ?_⟩
  -- the line is not indented
  have hindent : indentWidth (longName n) = 0 := by
    cases n with
    | zero => exact absurd hn (by decide)
    | succ n => rfl
  show indentWidth (String.ofList (longName n)).toList + caretWidthLimit ≤ n
  rw [String.toList_ofList, hindent, Nat.zero_add]
  exact hn

/-- The bytes of such a name. -/
theorem decode_longName (n : Nat) :
    Text.Utf8.decode (List.replicate n 97 ++ [36]) = String.ofList (longName n) := by
  have hascii : ∀ b ∈ List.replicate n 97 ++ [36], b < (0x80 : UInt8) := by
    intro b hb
    rcases List.mem_append.1 hb with hb | hb
    · rw [List.eq_of_mem_replicate hb]
      decide
    · rw [List.mem_singleton.1 hb]
      decide
  rw [Text.Utf8.decode_of_ascii hascii, List.map_append, List.map_replicate]
  rfl

namespace Command

/-- A run that breaks off behind a name of 65535 characters, and one with a short name that does
not. -/
theorem run_breaks_off_longName :
    (∃ tooWide, run ⟨some "a.c", false, false, false, false⟩
      (fun _ => .ok (List.replicate 65535 97 ++ [36])) .unlimited .unlimited = .error tooWide) ∧
    ∃ outcome, run ⟨some "a.c", false, false, false, false⟩
      (fun _ => .ok [97, 36]) .unlimited .unlimited = .ok outcome := by
  constructor
  · refine (run_breaks_off_iff _ _ _ _).1.2 ⟨⟨"a.c", String.ofList (longName 65535)⟩, ?_, ?_⟩
    · rw [← decode_longName]
      exact Source.provide_file rfl false
    · refine ⟨⟨.unrecognisedCharacter "$", 65535⟩, ?_, outOfReach_longName (by decide)⟩
      rw [diagnostics_longName (by decide)]
      exact List.mem_singleton.2 rfl
  · have hread : (fun _ => .ok [97, 36] : Files) "a.c" = .ok [97, 36] := rfl
    exact (run_breaks_off_iff _ _ _ _).2.2 _ (Source.provide_file hread false) (by decide +kernel)

end Command

end TokenCensus

import Mathlib.Data.List.Forall2
import TokenCensus.Command.Run

/-!
# What a run writes

A run writes to two sinks, either of which can fail at any byte.  What has been accepted by then
stays, so what a run leaves behind is told by what it meant to write and by the room there was.
Diagnostics come first: only when all of them have been taken is the report written, and only when
that has been taken and flushed can the run succeed.

The options do not all have a say in what is written.  That diagnostics make a run fail changes no
byte, and neither the report that is asked for nor anything else about the output changes the
diagnostics.

## Key results

- `Sink.accepted_write_eq`, `Sink.write_fst_eq_true_iff`: what a sink takes, and whether that is all
- `renderAll_eq_ok`: what goes to the first sink is the diagnostics in the order of the scan
- `published_publish`: what is written of a scan, and how that ends
- `bytes_publish_congr`: the options that have no say in what is written
- `run_writes`: what any run writes, and how it ends
-/

namespace TokenCensus

open Text.Utf8 (encode)

/-! ## Sinks -/

/-- The first bytes of a text, as many as the limit allows. -/
def firstBytes (limit : Option Nat) (text : String) : List UInt8 :=
  match limit with
  | none => encode text
  | some n => (encode text).take n

/-- The limit allows all bytes of a text. -/
def WithinLimit (limit : Option Nat) (text : String) : Prop :=
  ∀ n ∈ limit, (encode text).length ≤ n

namespace Sink

variable (sink : Sink) (text : String)

/-- A sink takes the first bytes of a text, as many as it has room for. -/
theorem accepted_write_eq :
    (sink.write text).2.accepted = sink.accepted ++ firstBytes sink.room text := by
  rw [accepted_write]
  unfold fitting firstBytes
  cases sink.room <;> rfl

/-- Writing succeeds if there is room for all bytes. -/
theorem write_fst_eq_true_iff : (sink.write text).1 = true ↔ WithinLimit sink.room text := by
  rw [write_fst, hasRoom, WithinLimit]
  cases sink.room <;> simp

/-- Flushing adds no bytes. -/
theorem accepted_writeAndFlush :
    (sink.writeAndFlush text).2.accepted = sink.accepted ++ firstBytes sink.room text :=
  sink.accepted_write_eq text

theorem writeAndFlush_fst_eq_true_iff :
    (sink.writeAndFlush text).1 = true ↔ WithinLimit sink.room text ∧ sink.flushFails = false := by
  -- it succeeds if the write does and the flush does not fail
  rw [← write_fst_eq_true_iff]
  simp [writeAndFlush]

end Sink

/-! ## A run without a source -/

/-- What is not about the text of a source is told without a place. -/
theorem Diagnostic.display_of_isLexical_eq_false {diagnostic : Diagnostic}
    (h : diagnostic.problem.isLexical = false) :
    diagnostic.display = diagnostic.problem.message := by
  rw [display, if_neg (ne_true_of_eq_false h)]

namespace Command

/-- The message for a run that nothing was chosen for. -/
theorem accepted_refuse_noInputSelected (position : Nat) (out err : Sink) :
    (refuse ⟨.noInputSelected, position⟩ out err).out.accepted =
      out.accepted ++ firstBytes out.room "No file selected. Exiting...\n" :=
  out.accepted_write_eq _

/-- The message for a file that cannot be read. -/
theorem accepted_refuse_fileRead (path message : String) (position : Nat) (out err : Sink) :
    (refuse ⟨.fileRead path message, position⟩ out err).err.accepted =
      err.accepted ++ firstBytes err.room
        ("error: " ++ ("error reading file " ++ Text.quoted path ++ ": " ++ message) ++ "\n") := by
  have hdisplay : (⟨.fileRead path message, position⟩ : Diagnostic).display =
      "error reading file " ++ Text.quoted path ++ ": " ++ message :=
    Diagnostic.display_of_isLexical_eq_false rfl
  rw [← hdisplay]
  exact err.accepted_write_eq _

/-! ## A run with a source -/

/-- The diagnostics are rendered in their order, if all of them can be. -/
theorem renderAll_eq_ok {diagnostics : List Diagnostic} {source : Source} {rendered : List String}
    (h : List.Forall₂ (fun diagnostic text => diagnostic.render source.text source.name = .ok text)
      diagnostics rendered) :
    renderAll diagnostics source = .ok (String.join rendered) := by
  -- the results come one by one, as `mapM` asks for them
  have hmap : diagnostics.mapM (fun diagnostic => diagnostic.render source.text source.name) =
      .ok rendered := by
    induction h with
    | nil => rfl
    | cons hfirst _ ih =>
      rw [List.mapM_cons, hfirst, ih]
      rfl
  rw [renderAll, hmap]
  rfl

/-- A run that has found a source leaves `outcome` behind: it writes `diagnostics` to the one sink
and then, if that has taken all of them, `report` to the other, and it fails if it is `rejected`. -/
structure Published (diagnostics report : String) (rejected : Prop) (out err : Sink)
    (outcome : Outcome) : Prop where
  errTakes : outcome.err.accepted = err.accepted ++ firstBytes err.room diagnostics
  silent : ¬ WithinLimit err.room diagnostics →
    outcome.out.accepted = out.accepted ∧ outcome.status = .failure
  outTakes : WithinLimit err.room diagnostics →
    outcome.out.accepted = out.accepted ++ firstBytes out.room report
  succeeds : WithinLimit err.room diagnostics →
    (outcome.status = .success ↔
      WithinLimit out.room report ∧ out.flushFails = false ∧ ¬ rejected)

theorem rejects_eq_true_iff {options : Options} {scan : Scan} :
    rejects options scan = true ↔ options.strict = true ∧ scan.diagnostics ≠ [] := by
  simp [rejects, Scan.isClean]

/-- What is written of a scan, and how that ends. -/
theorem published_publish (options : Options) (scan : Scan) (diagnostics : String)
    (out err : Sink) :
    Published diagnostics (reportText options scan)
      (options.strict = true ∧ scan.diagnostics ≠ []) out err
      (publish options scan diagnostics out err) := by
  -- what the two sinks do, without looking at how they do it
  have herr := err.write_fst_eq_true_iff diagnostics
  have herrBytes := err.accepted_write_eq diagnostics
  have hout := out.writeAndFlush_fst_eq_true_iff (reportText options scan)
  have houtBytes := out.accepted_writeAndFlush (reportText options scan)
  unfold publish
  generalize err.write diagnostics = errWritten at herr herrBytes ⊢
  generalize out.writeAndFlush (reportText options scan) = outWritten at hout houtBytes ⊢
  obtain ⟨errTook, errAfter⟩ := errWritten
  obtain ⟨outTook, outAfter⟩ := outWritten
  cases errTook with
  | false =>
    -- the diagnostics are cut off, and the other sink is left alone
    have hcut : ¬ WithinLimit err.room diagnostics := fun h => nomatch herr.2 h
    exact ⟨herrBytes, fun _ => ⟨rfl, rfl⟩, fun h => absurd h hcut, fun h => absurd h hcut⟩
  | true =>
    have hall : WithinLimit err.room diagnostics := herr.1 rfl
    cases outTook with
    | false =>
      -- the report is cut off, or taken but not flushed
      refine ⟨herrBytes, fun h => absurd hall h, fun _ => houtBytes, fun _ => ?_⟩
      refine iff_of_false nofun fun h => ?_
      exact nomatch hout.2 ⟨h.1, h.2.1⟩
    | true =>
      -- all has been written, so it depends on the diagnostics only
      obtain ⟨hfits, hflush⟩ := hout.1 rfl
      refine ⟨herrBytes, fun h => absurd hall h, fun _ => houtBytes, fun _ => ?_⟩
      rw [← rejects_eq_true_iff]
      cases hrejects : rejects options scan with
      | true => exact iff_of_false nofun fun h => h.2.2 rfl
      | false => exact iff_of_true rfl ⟨hfits, hflush, nofun⟩

/-! ## The options -/

/-- The bytes that both sinks have when a run has ended. -/
def Outcome.bytes (outcome : Outcome) : List UInt8 × List UInt8 :=
  (outcome.out.accepted, outcome.err.accepted)

/-- What is written depends on the report that is asked for, and on no other option. -/
theorem bytes_publish_congr (options other : Options) (htokens : other.tokens = options.tokens)
    (scan : Scan) (diagnostics : String) (out err : Sink) :
    (publish other scan diagnostics out err).bytes =
      (publish options scan diagnostics out err).bytes := by
  -- of the options only `tokens` chooses the report
  have hreport : reportText other scan = reportText options scan := by
    rw [reportText, reportText, htokens]
  unfold publish
  rw [hreport]
  rcases err.write diagnostics with ⟨errTook, errAfter⟩
  cases errTook with
  | false => rfl
  | true =>
    rcases out.writeAndFlush (reportText options scan) with ⟨outTook, outAfter⟩
    cases outTook <;> rfl

/-- Runs that read the same source and render it alike. -/
theorem map_run_congr {α : Type} (options other : Options) (hinput : other.input = options.input)
    (hsample : other.sample = options.sample) (f : Outcome → α) (files : Files) (out err : Sink)
    (h : ∀ scan diagnostics, f (publish other scan diagnostics out err) =
      f (publish options scan diagnostics out err)) :
    (run other files out err).map f = (run options files out err).map f := by
  unfold run
  rw [hinput, hsample]
  -- refused, broken off or published: only the last looks at the options
  cases Source.provide files options.input options.sample with
  | error diagnostic => rfl
  | ok source =>
    cases hrender : renderAll (scan source.text).diagnostics source with
    | error tooWide => simp [hrender, Except.map]
    | ok diagnostics => simp [hrender, Except.map, h]

/-! ## All runs -/

/-- What a run writes, and how it ends.  Without a source there is one message on one of the sinks;
with one, the diagnostics and then the report.  Whether diagnostics make the run fail, and whether it
is verbose, changes none of the bytes, and the report that is asked for changes none of the
diagnostics. -/
theorem run_writes (options : Options) (files : Files) (out err : Sink) :
    (options.input = none → options.sample = false →
      ∃ outcome, run options files out err = .ok outcome ∧ outcome.status = .failure ∧
        outcome.out.accepted =
          out.accepted ++ firstBytes out.room "No file selected. Exiting...\n" ∧
        outcome.err.accepted = err.accepted) ∧
    (∀ path failure, options.input = some path → files path = .error failure →
      ∃ outcome, run options files out err = .ok outcome ∧ outcome.status = .failure ∧
        outcome.out.accepted = out.accepted ∧
        outcome.err.accepted = err.accepted ++ firstBytes err.room
          ("error: " ++ ("error reading file " ++ Text.quoted path ++ ": " ++ failure.message) ++
            "\n")) ∧
    (∀ source rendered, Source.provide files options.input options.sample = .ok source →
      List.Forall₂ (fun diagnostic text => diagnostic.render source.text source.name = .ok text)
        (scan source.text).diagnostics rendered →
      ∃ outcome, run options files out err = .ok outcome ∧
        Published (String.join rendered)
          (if options.tokens then Report.tokenLines (scan source.text)
            else Report.countLines (tokenTable source.text))
          (options.strict = true ∧ (scan source.text).diagnostics ≠ []) out err outcome) ∧
    (∀ strict verbose,
      (run { options with strict, verbose } files out err).map Outcome.bytes =
        (run options files out err).map Outcome.bytes) ∧
    (∀ tokens,
      (run { options with tokens } files out err).map (·.err.accepted) =
        (run options files out err).map (·.err.accepted)) := by
  refine ⟨?_, ?_, ?_, ?_, ?_⟩
  · -- nothing was chosen
    intro hinput hsample
    refine ⟨refuse ⟨.noInputSelected, 0⟩ out err, ?_, rfl,
      accepted_refuse_noInputSelected 0 out err, rfl⟩
    rw [run, hinput, hsample]
    rfl
  · -- a file was chosen and cannot be read
    intro path failure hinput hfailure
    refine ⟨refuse ⟨.fileRead path failure.message, 0⟩ out err, ?_, rfl, rfl,
      accepted_refuse_fileRead path failure.message 0 out err⟩
    have hprovide : Source.provide files (some path) options.sample =
        .error ⟨.fileRead path failure.message, 0⟩ := by
      show Source.Origin.read files (.file path) = _
      rw [Source.Origin.read, hfailure]
    rw [run, hinput, hprovide]
  · -- all diagnostics are rendered before the first byte is written
    intro source rendered hprovide hrendered
    refine ⟨_, ?_, published_publish options (scan source.text) (String.join rendered) out err⟩
    rw [run, hprovide]
    show (renderAll _ source).map _ = _
    rw [renderAll_eq_ok hrendered]
    rfl
  · -- the sinks get the same, as the report that is asked for is the same
    intro strict verbose
    apply map_run_congr options { options with strict, verbose } rfl rfl
    intro scan diagnostics
    exact bytes_publish_congr options { options with strict, verbose } rfl scan diagnostics out err
  · -- both publish the same diagnostics, and the sink for those takes nothing else
    intro tokens
    apply map_run_congr options { options with tokens } rfl rfl (·.err.accepted)
    intro scan diagnostics
    exact (published_publish _ scan diagnostics out err).errTakes.trans
      (published_publish options scan diagnostics out err).errTakes.symm

/-- A report that is cut off, behind diagnostics that are not. -/
theorem run_writes_report_cut_off :
    ∃ outcome, run ⟨some "a.c", false, true, false, false⟩ (fun _ => .ok [97, 36])
        (.new (some 15) false) .unlimited = .ok outcome ∧
      outcome.status = .failure ∧
      outcome.out.text = "IDENTIFIER a @ " ∧
      outcome.err.text = "Error: UnrecognisedCharacter (`$` is not part of the language and was " ++
        "skipped)\n-> a.c\n  |\n1 | a$\n  | -^\n" := by
  have hdiagnostics : (scan "a$").diagnostics = [⟨.unrecognisedCharacter "$", 1⟩] := by
    decide +kernel
  have hprovide : Source.provide (fun _ => .ok [97, 36]) (some "a.c") false =
      .ok ⟨"a.c", "a$"⟩ := by
    decide +kernel
  obtain ⟨outcome, hrun, hpublished⟩ :=
    (run_writes ⟨some "a.c", false, true, false, false⟩ (fun _ => .ok [97, 36])
      (.new (some 15) false) .unlimited).2.2.1 _
      ["Error: UnrecognisedCharacter (`$` is not part of the language and was " ++
        "skipped)\n-> a.c\n  |\n1 | a$\n  | -^\n"] hprovide (by
      rw [hdiagnostics]
      exact .cons (by decide +kernel) .nil)
  -- the sink for diagnostics has room for everything
  have hroom (text : String) : WithinLimit Sink.unlimited.room text := nofun
  -- the report has more bytes than its sink takes
  have hcut : outcome.status ≠ .success := by
    intro hstatus
    have hfits := ((hpublished.succeeds (hroom _)).1 hstatus).1 15 rfl
    exact absurd hfits (by decide +kernel)
  refine ⟨outcome, hrun, ?_, ?_, ?_⟩
  · cases hstatus : outcome.status with
    | success => exact absurd hstatus hcut
    | failure => rfl
  · rw [Sink.text, hpublished.outTakes (hroom _)]
    decide +kernel
  · rw [Sink.text, hpublished.errTakes]
    decide +kernel

end Command

end TokenCensus

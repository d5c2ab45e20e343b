import Mathlib.Data.List.Induction
import Mathlib.Data.List.Nodup
import Mathlib.Data.List.TakeWhile
import TokenCensus.Command.Run

/-!
# Which command lines are accepted

A command line is read from left to right and the first mistake ends that.  Which command lines have
no mistake can be told without an order: up to the first two dashes there are only flags and files,
no flag is given twice, and of all the files there is at most one, with a name, and not together
with the sample.  What is asked for does not depend on an order either.

## Key results

- `readArgument_eq_ok_iff`: all that reading one argument can do
- `ReadSoFar`, `readSoFar_of_foldlM`: what is known of the arguments that have been read
- `parse_eq_ok_iff`: which command lines are accepted, and as what
- `accepted_in_any_order`: the arguments before two dashes may be in any order
-/

namespace TokenCensus.Command

/-! ## Arguments -/

/-- Whether an argument is a file where there may be flags. -/
def IsFile (argument : String) : Prop := argument.toList.head? ≠ some '-' ∨ argument = "-"

instance : DecidablePred IsFile := fun _ => inferInstanceAs (Decidable (_ ∨ _))

/-- The flag that an argument gives, if it is a single flag that sets an option. -/
def Flag.ofArgument? : String → Option Flag
  | "--sample" => some sample
  | "--tokens" => some tokens
  | "--strict" => some strict
  | "--verbose" => some verbose
  | "-v" => some verbose
  | _ => none

/-- The arguments that give a flag, for a flag that sets an option. -/
def Flag.names : Flag → List String
  | sample => ["--sample"]
  | tokens => ["--tokens"]
  | strict => ["--strict"]
  | verbose => ["--verbose", "-v"]
  | help | version => []

/-- The arguments before the first two dashes. -/
def beforeEscape (arguments : List String) : List String := arguments.takeWhile (· ≠ "--")

/-- The arguments from the first two dashes on. -/
def fromEscape (arguments : List String) : List String := arguments.dropWhile (· ≠ "--")

/-- The arguments behind the first two dashes. -/
def behindEscape (arguments : List String) : List String := (fromEscape arguments).tail

/-- The flags that are given. -/
def flags (arguments : List String) : List Flag :=
  (beforeEscape arguments).filterMap Flag.ofArgument?

/-- The files that are given. -/
def files (arguments : List String) : List String :=
  (beforeEscape arguments).filter IsFile ++ behindEscape arguments

/-- What a command line has as far as it can be read. -/
structure WellFormed (arguments : List String) : Prop where
  known : ∀ argument ∈ beforeEscape arguments,
    IsFile argument ∨ (Flag.ofArgument? argument).isSome
  flags_nodup : (flags arguments).Nodup
  length_files : (files arguments).length ≤ 1

/-- What a command line without mistakes has. -/
structure Acceptable (arguments : List String) : Prop extends WellFormed arguments where
  named : "" ∉ files arguments
  no_conflict : files arguments ≠ [] → .sample ∉ flags arguments

/-- What a command line asks for. -/
def asked (arguments : List String) : Options where
  input := (files arguments).head?
  sample := .sample ∈ flags arguments
  tokens := .tokens ∈ flags arguments
  strict := .strict ∈ flags arguments
  verbose := .verbose ∈ flags arguments

/-! ## The names of flags -/

theorem Flag.ofArgument?_eq_some_iff {argument : String} {flag : Flag} :
    ofArgument? argument = some flag ↔ argument ∈ flag.names := by
  constructor
  · intro h
    -- one branch of the match for each name
    unfold ofArgument? at h
    split at h <;> cases h <;> simp [names]
  · intro h
    cases flag with
    | sample | tokens | strict =>
      rw [List.mem_singleton.1 h]
      rfl
    | verbose =>
      obtain rfl | h := List.mem_cons.1 h
      · rfl
      · rw [List.mem_singleton.1 h]
        rfl
    | help | version => cases h

/-- Only flags that set an option have names here, and these are neither files nor the two
dashes. -/
theorem Flag.of_mem_names {flag : Flag} :
    ∀ name ∈ flag.names, flag ≠ .help ∧ flag ≠ .version ∧ name ≠ "--" ∧ ¬ IsFile name := by
  cases flag <;> decide

theorem Flag.of_ofArgument?_eq_some {argument : String} {flag : Flag}
    (h : ofArgument? argument = some flag) :
    flag ≠ .help ∧ flag ≠ .version ∧ argument ≠ "--" ∧ ¬ IsFile argument :=
  of_mem_names argument (ofArgument?_eq_some_iff.1 h)

theorem IsFile.ofArgument?_eq_none {argument : String} (h : IsFile argument) :
    Flag.ofArgument? argument = none := by
  cases hflag : Flag.ofArgument? argument with
  | none => rfl
  | some flag =>
    obtain ⟨-, -, -, hfile⟩ := Flag.of_ofArgument?_eq_some hflag
    exact absurd h hfile

theorem IsFile.ne_escape {argument : String} (h : IsFile argument) : argument ≠ "--" := by
  rintro rfl
  revert h
  decide

/-! ## One argument -/

theorem bind_eq_ok_iff {ε α β : Type} {x : Except ε α} {f : α → Except ε β} {b : β} :
    (x >>= f) = .ok b ↔ ∃ a, x = .ok a ∧ f a = .ok b := by
  cases x <;> simp [bind, Except.bind]

namespace Progress

theorem readInput_eq_ok_iff {progress next : Progress} {path : String} :
    progress.readInput path = .ok next ↔
      progress.input = none ∧ next = { progress with input := some path } := by
  unfold readInput
  cases progress.input <;> simp [eq_comm]

theorem readFlag_eq_ok_iff {progress next : Progress} {flag : Flag} :
    progress.readFlag flag = .ok next ↔
      progress.input ≠ some "" ∧ flag ≠ .help ∧ flag ≠ .version ∧ flag ∉ progress.seen ∧
        next = { progress with seen := progress.seen ++ [flag] } := by
  unfold readFlag
  split
  · -- a file without a name stops the program at the next flag
    simp [*]
  · -- help and version stop it, whether or not they have been seen
    by_cases hseen : flag ∈ progress.seen <;> cases flag <;> simp [*, eq_comm]

theorem readLong_eq_ok_iff {progress next : Progress} {name : String} {value : Option String} :
    progress.readLong name value = .ok next ↔
      ∃ flag, Flag.ofLong? name = some flag ∧ value = none ∧ progress.readFlag flag = .ok next := by
  unfold readLong
  cases Flag.ofLong? name <;> cases value <;> simp

theorem readLetter_eq_ok_iff {progress next : Progress} {letter : Char} :
    progress.readLetter letter = .ok next ↔
      letter = 'v' ∧ progress.readFlag .verbose = .ok next := by
  by_cases hletter : letter = 'v'
  · subst hletter
    simp [readLetter, Flag.ofLetter?]
  · -- the other letters stop the program or are unknown
    unfold readLetter
    cases hflag : Flag.ofLetter? letter with
    | none => simp [hletter]
    | some flag =>
      have hstop : flag = .help ∨ flag = .version := by
        unfold Flag.ofLetter? at hflag
        split at hflag <;> simp_all
      rcases hstop with rfl | rfl <;> simp [hletter, readFlag_eq_ok_iff]

/-- The only group of letters that can be read is a single letter. -/
theorem foldlM_readLetter_eq_ok_iff {progress next : Progress} {letter : Char}
    {letters : List Char} :
    (letter :: letters).foldlM readLetter progress = .ok next ↔
      letter = 'v' ∧ letters = [] ∧ progress.readFlag .verbose = .ok next := by
  simp only [List.foldlM_cons, bind_eq_ok_iff, readLetter_eq_ok_iff]
  constructor
  · rintro ⟨between, ⟨rfl, hflag⟩, hrest⟩
    cases letters with
    | nil => exact ⟨rfl, rfl, by rw [hflag]; exact hrest⟩
    | cons second letters =>
      -- the flag of the first letter has been seen
      simp only [List.foldlM_cons, bind_eq_ok_iff, readLetter_eq_ok_iff] at hrest
      obtain ⟨_, ⟨-, hsecond⟩, -⟩ := hrest
      obtain ⟨-, -, -, hseen, -⟩ := readFlag_eq_ok_iff.1 hsecond
      obtain ⟨-, -, -, -, rfl⟩ := readFlag_eq_ok_iff.1 hflag
      exact absurd (List.mem_append_right _ (List.mem_singleton.2 rfl)) hseen
  · rintro ⟨rfl, rfl, hflag⟩
    exact ⟨next, ⟨rfl, hflag⟩, rfl⟩

/-- All that reading an argument can do, if it is no mistake. -/
inductive Reads (progress : Progress) (argument : String) : Progress → Prop where
  /-- Behind two dashes every argument is a file. -/
  | behind (hescaped : progress.escaped) (hinput : progress.input = none) :
    Reads progress argument { progress with input := some argument }
  | escape (hescaped : ¬ progress.escaped) (hdashes : argument = "--") :
    Reads progress argument { progress with escaped := true }
  | flag {flag} (hescaped : ¬ progress.escaped) (hflag : Flag.ofArgument? argument = some flag)
    (hinput : progress.input ≠ some "") (hseen : flag ∉ progress.seen) :
    Reads progress argument { progress with seen := progress.seen ++ [flag] }
  | file (hescaped : ¬ progress.escaped) (hfile : IsFile argument)
    (hinput : progress.input = none) :
    Reads progress argument { progress with input := some argument }

end Progress

/-! ## The forms of an argument -/

theorem Flag.ofArgument?_of_ofLong? {name : String} {flag : Flag} (h : ofLong? name = some flag)
    (hhelp : flag ≠ .help) (hversion : flag ≠ .version) :
    ofArgument? ("--" ++ name) = some flag := by
  unfold ofLong? at h
  split at h <;> simp_all [ofArgument?]

theorem fst_splitValue_of_none {cs : List Char} (h : (splitValue cs).2 = none) :
    (splitValue cs).1 = String.ofList cs := by
  unfold splitValue at h ⊢
  split at h
  · -- there is no equals sign, so the name is all of it
    next hdrop =>
    have htake := List.takeWhile_append_dropWhile (p := (· ≠ '=')) (l := cs)
    rw [hdrop, List.append_nil] at htake
    exact congrArg String.ofList htake
  · cases h

theorem Argument.eq_of_ofString_eq_escape {argument : String} (h : ofString argument = .escape) :
    argument = "--" := by
  unfold ofString at h
  split at h <;> simp_all [← String.toList_inj]

theorem Argument.eq_of_ofString_eq_long {argument name : String}
    (h : ofString argument = .long name none) : argument = "--" ++ name := by
  unfold ofString at h
  split at h
  · cases h
  · next cs _ hcs =>
    -- the branch for two dashes and more, with the value that `splitValue` has found
    have hlong : Argument.long (splitValue cs).1 (splitValue cs).2 = .long name none := h
    obtain ⟨hname, hvalue⟩ := Argument.long.inj hlong
    rw [← hname, fst_splitValue_of_none hvalue, ← String.toList_inj, hcs]
    simp
  · cases h
  · cases h

theorem Argument.eq_of_ofString_eq_letters {argument : String} {letters : List Char}
    (h : ofString argument = .letters letters) :
    letters ≠ [] ∧ argument = String.ofList ('-' :: letters) := by
  unfold ofString at h
  split at h
  · cases h
  · cases h
  · next hcs =>
    rw [← Argument.letters.inj h, ← hcs, String.ofList_toList]
    exact ⟨List.cons_ne_nil _ _, rfl⟩
  · cases h

theorem Argument.of_ofString_eq_positional {argument path : String}
    (h : ofString argument = .positional path) : path = argument ∧ IsFile argument := by
  have hpath : path = argument := by
    unfold ofString at h
    split at h <;> simp_all
  subst hpath
  exact ⟨rfl, (ofString_eq_positional_iff _).1 h⟩

/-- A flag that sets an option is read as that flag, whichever of its names it is given by. -/
theorem Progress.readArgument_of_ofArgument? {progress : Progress} {argument : String} {flag : Flag}
    (hescaped : ¬ progress.escaped) (h : Flag.ofArgument? argument = some flag) :
    progress.readArgument argument = progress.readFlag flag := by
  rw [readArgument, if_neg hescaped]
  unfold Flag.ofArgument? at h
  split at h
  · cases h
    rfl
  · cases h
    rfl
  · cases h
    rfl
  · cases h
    rfl
  · -- the letter is read as a group of one
    cases h
    show progress.readFlag .verbose >>= pure = _
    exact bind_pure _
  · cases h

namespace Progress

/-- Reading an argument succeeds in these ways and no others. -/
theorem readArgument_eq_ok_iff {progress next : Progress} {argument : String} :
    progress.readArgument argument = .ok next ↔ progress.Reads argument next := by
  by_cases hescaped : progress.escaped
  · -- behind two dashes the form of the argument is not looked at
    rw [readArgument_of_escaped hescaped, readInput_eq_ok_iff]
    constructor
    · rintro ⟨hinput, rfl⟩
      exact .behind hescaped hinput
    · rintro (⟨-, hinput⟩ | _ | _ | _)
      · exact ⟨hinput, rfl⟩
      all_goals contradiction
  -- before them, the form of the argument decides
  constructor
  · intro h
    rw [readArgument, if_neg hescaped] at h
    -- each form can only be read in its own way
    cases hform : Argument.ofString argument with
    | escape =>
      rw [hform] at h
      rw [← Except.ok.inj h]
      exact .escape hescaped (Argument.eq_of_ofString_eq_escape hform)
    -- a long name that is no flag, or one with a value, would have been a mistake
    | long name value =>
      rw [hform] at h
      obtain ⟨flag, hlong, rfl, hflag⟩ := readLong_eq_ok_iff.1 h
      obtain ⟨hinput, hhelp, hversion, hseen, rfl⟩ := readFlag_eq_ok_iff.1 hflag
      have hargument := Flag.ofArgument?_of_ofLong? hlong hhelp hversion
      rw [← Argument.eq_of_ofString_eq_long hform] at hargument
      exact .flag hescaped hargument hinput hseen
    | letters letters =>
      rw [hform] at h
      obtain ⟨hne, rfl⟩ := Argument.eq_of_ofString_eq_letters hform
      obtain ⟨letter, letters, rfl⟩ := List.exists_cons_of_ne_nil hne
      -- a second letter would have been a mistake
      obtain ⟨rfl, rfl, hflag⟩ := foldlM_readLetter_eq_ok_iff.1 h
      obtain ⟨hinput, -, -, hseen, rfl⟩ := readFlag_eq_ok_iff.1 hflag
      exact .flag hescaped rfl hinput hseen
    | positional path =>
      rw [hform] at h
      obtain ⟨rfl, hfile⟩ := Argument.of_ofString_eq_positional hform
      obtain ⟨hinput, rfl⟩ := readInput_eq_ok_iff.1 h
      exact .file hescaped hfile hinput
  · -- from left to right: each way of reading is that of an argument of one form
    rintro (_ | ⟨-, rfl⟩ | ⟨-, hflag, hinput, hseen⟩ | ⟨-, hfile, hinput⟩)
    · contradiction
    · rw [readArgument, if_neg hescaped]
      rfl
    · obtain ⟨hhelp, hversion, -⟩ := Flag.of_ofArgument?_eq_some hflag
      rw [readArgument_of_ofArgument? hescaped hflag, readFlag_eq_ok_iff]
      exact ⟨hinput, hhelp, hversion, hseen, rfl⟩
    · rw [readArgument, if_neg hescaped, (Argument.ofString_eq_positional_iff _).2 hfile]
      exact readInput_eq_ok_iff.2 ⟨hinput, rfl⟩

end Progress

/-! ## Before and behind two dashes -/

theorem beforeEscape_of_not_mem {arguments : List String} (h : "--" ∉ arguments) :
    beforeEscape arguments = arguments := by
  rw [beforeEscape, List.takeWhile_eq_self_iff]
  intro argument hmem
  exact decide_eq_true (ne_of_mem_of_not_mem hmem h)

theorem fromEscape_of_not_mem {arguments : List String} (h : "--" ∉ arguments) :
    fromEscape arguments = [] := by
  rw [fromEscape, List.dropWhile_eq_nil_iff]
  intro argument hmem
  exact decide_eq_true (ne_of_mem_of_not_mem hmem h)

theorem behindEscape_of_not_mem {arguments : List String} (h : "--" ∉ arguments) :
    behindEscape arguments = [] := by
  rw [behindEscape, fromEscape_of_not_mem h, List.tail_nil]

theorem beforeEscape_append {front : List String} (h : "--" ∉ front) (rest : List String) :
    beforeEscape (front ++ "--" :: rest) = front := by
  rw [beforeEscape, List.takeWhile_append_of_pos]
  · simp
  · intro argument hmem
    exact decide_eq_true (ne_of_mem_of_not_mem hmem h)

theorem fromEscape_append {front : List String} (h : "--" ∉ front) (rest : List String) :
    fromEscape (front ++ "--" :: rest) = "--" :: rest := by
  rw [fromEscape, List.dropWhile_append_of_pos]
  · simp
  · intro argument hmem
    exact decide_eq_true (ne_of_mem_of_not_mem hmem h)

theorem behindEscape_append {front : List String} (h : "--" ∉ front) (rest : List String) :
    behindEscape (front ++ "--" :: rest) = rest := by
  rw [behindEscape, fromEscape_append h, List.tail_cons]

/-! ## One argument more -/

theorem not_mem_concat {arguments : List String} (h : "--" ∉ arguments) {argument : String}
    (hargument : argument ≠ "--") : "--" ∉ arguments ++ [argument] := by
  rw [List.mem_append, List.mem_singleton]
  exact fun hmem => hmem.elim h (hargument ∘ Eq.symm)

/-- Behind two dashes an argument is a file more. -/
theorem concat_of_mem {arguments : List String} (h : "--" ∈ arguments) (argument : String) :
    beforeEscape (arguments ++ [argument]) = beforeEscape arguments ∧
      flags (arguments ++ [argument]) = flags arguments ∧
      files (arguments ++ [argument]) = files arguments ++ [argument] := by
  obtain ⟨front, rest, rfl, hfront⟩ := List.eq_append_cons_of_mem h
  have hbefore := beforeEscape_append hfront
  have hbehind := behindEscape_append hfront
  -- both sides have the same front, and the new argument goes on behind the dashes
  rw [List.append_assoc, List.cons_append, flags, flags, files, files, hbefore, hbefore, hbehind,
    hbehind, List.append_assoc]
  exact ⟨rfl, rfl, rfl⟩

/-- The two dashes are neither a flag nor a file. -/
theorem concat_escape {arguments : List String} (h : "--" ∉ arguments) :
    beforeEscape (arguments ++ ["--"]) = beforeEscape arguments ∧
      flags (arguments ++ ["--"]) = flags arguments ∧
      files (arguments ++ ["--"]) = files arguments := by
  rw [flags, flags, files, files, beforeEscape_append h, behindEscape_append h,
    beforeEscape_of_not_mem h, behindEscape_of_not_mem h]
  exact ⟨rfl, rfl, rfl⟩

theorem concat_of_not_mem {arguments : List String} (h : "--" ∉ arguments) {argument : String}
    (hargument : argument ≠ "--") :
    beforeEscape (arguments ++ [argument]) = beforeEscape arguments ++ [argument] ∧
      flags (arguments ++ [argument]) = flags arguments ++ (Flag.ofArgument? argument).toList ∧
      files (arguments ++ [argument]) = files arguments ++ [argument].filter IsFile := by
  have h' := not_mem_concat h hargument
  -- without dashes nothing is cut off, before the argument or behind it
  rw [flags, flags, files, files, beforeEscape_of_not_mem h', behindEscape_of_not_mem h',
    beforeEscape_of_not_mem h, behindEscape_of_not_mem h]
  refine ⟨rfl, ?_, ?_⟩
  · rw [List.filterMap_append]
    cases hflag : Flag.ofArgument? argument <;> simp [hflag]
  · simp only [List.append_nil, List.filter_append]

theorem concat_flag {arguments : List String} (h : "--" ∉ arguments) {argument : String}
    {flag : Flag} (hflag : Flag.ofArgument? argument = some flag) :
    beforeEscape (arguments ++ [argument]) = beforeEscape arguments ++ [argument] ∧
      flags (arguments ++ [argument]) = flags arguments ++ [flag] ∧
      files (arguments ++ [argument]) = files arguments := by
  obtain ⟨-, -, hdashes, hfile⟩ := Flag.of_ofArgument?_eq_some hflag
  have hconcat := concat_of_not_mem h hdashes
  rwa [hflag, Option.toList_some, List.filter_cons_of_neg (by simpa using hfile), List.filter_nil,
    List.append_nil] at hconcat

theorem concat_file {arguments : List String} (h : "--" ∉ arguments) {argument : String}
    (hfile : IsFile argument) :
    beforeEscape (arguments ++ [argument]) = beforeEscape arguments ++ [argument] ∧
      flags (arguments ++ [argument]) = flags arguments ∧
      files (arguments ++ [argument]) = files arguments ++ [argument] := by
  have hconcat := concat_of_not_mem h hfile.ne_escape
  rwa [hfile.ofArgument?_eq_none, Option.toList_none, List.append_nil,
    List.filter_cons_of_pos (by simpa using hfile), List.filter_nil] at hconcat

theorem prefix_concat (arguments : List String) (argument : String) :
    beforeEscape arguments <+: beforeEscape (arguments ++ [argument]) ∧
      flags arguments <+: flags (arguments ++ [argument]) ∧
      files arguments <+: files (arguments ++ [argument]) := by
  -- behind dashes, at the dashes, before the dashes
  by_cases h : "--" ∈ arguments
  · obtain ⟨hbefore, hflags, hfiles⟩ := concat_of_mem h argument
    rw [hbefore, hflags, hfiles]
    exact ⟨List.prefix_rfl, List.prefix_rfl, List.prefix_append _ _⟩
  by_cases hargument : argument = "--"
  · obtain ⟨hbefore, hflags, hfiles⟩ := concat_escape h
    rw [hargument, hbefore, hflags, hfiles]
    exact ⟨List.prefix_rfl, List.prefix_rfl, List.prefix_rfl⟩
  · obtain ⟨hbefore, hflags, hfiles⟩ := concat_of_not_mem h hargument
    rw [hbefore, hflags, hfiles]
    exact ⟨List.prefix_append _ _, List.prefix_append _ _, List.prefix_append _ _⟩

theorem WellFormed.of_concat {arguments : List String} {argument : String}
    (h : WellFormed (arguments ++ [argument])) : WellFormed arguments := by
  -- flags and files are only added, so fewer of them are still without a mistake
  obtain ⟨hbefore, hflags, hfiles⟩ := prefix_concat arguments argument
  exact {
    known := fun other hmem => h.known other (hbefore.subset hmem)
    flags_nodup := h.flags_nodup.sublist hflags.sublist
    length_files := Nat.le_trans hfiles.length_le h.length_files }

/-! ## All arguments -/

/-- What is known after `arguments` have been read. -/
structure ReadSoFar (arguments : List String) (progress : Progress) : Prop
    extends WellFormed arguments where
  seen_eq : progress.seen = flags arguments
  input_eq : progress.input = (files arguments).head?
  escaped_iff : progress.escaped ↔ "--" ∈ arguments

theorem readSoFar_start : ReadSoFar [] Progress.start where
  known := nofun
  flags_nodup := List.nodup_nil
  length_files := Nat.zero_le 1
  seen_eq := rfl
  input_eq := rfl
  escaped_iff := by simp [Progress.start]

/-- One argument more is read. -/
theorem ReadSoFar.concat {arguments : List String} {progress next : Progress} {argument : String}
    (h : ReadSoFar arguments progress) (hreads : progress.Reads argument next) :
    ReadSoFar (arguments ++ [argument]) next := by
  -- a file can be read only if none has been read
  have hnone : progress.input = none → files arguments = [] := by
    rw [h.input_eq]
    exact List.head?_eq_none_iff.1
  -- each way of reading adds to the lists what it adds to the progress
  cases hreads with
  | behind hescaped hinput =>
    have hmem := h.escaped_iff.1 hescaped
    obtain ⟨hbefore, hflags, hfiles⟩ := concat_of_mem hmem argument
    rw [hnone hinput] at hfiles
    exact {
      known := hbefore ▸ h.known
      flags_nodup := hflags ▸ h.flags_nodup
      length_files := by rw [hfiles]; rfl
      seen_eq := by rw [hflags]; exact h.seen_eq
      input_eq := by rw [hfiles]; rfl
      escaped_iff := by simp [hescaped, hmem] }
  -- nothing is added but the mark that no flag follows
  | escape hescaped hdashes =>
    subst hdashes
    obtain ⟨hbefore, hflags, hfiles⟩ := concat_escape (mt h.escaped_iff.2 hescaped)
    exact {
      known := hbefore ▸ h.known
      flags_nodup := hflags ▸ h.flags_nodup
      length_files := hfiles ▸ h.length_files
      seen_eq := by rw [hflags]; exact h.seen_eq
      input_eq := by rw [hfiles]; exact h.input_eq
      escaped_iff := by simp }
  | flag hescaped hflag hinput hseen =>
    have hmem := mt h.escaped_iff.2 hescaped
    obtain ⟨-, -, hdashes, -⟩ := Flag.of_ofArgument?_eq_some hflag
    have hmem' := not_mem_concat hmem hdashes
    obtain ⟨hbefore, hflags, hfiles⟩ := concat_flag hmem hflag
    rw [h.seen_eq] at hseen
    exact {
      -- the argument is known because it is a flag
      known := by
        rw [hbefore, List.forall_mem_append]
        exact ⟨h.known, by simp [hflag]⟩
      -- a flag that has been seen is no longer read, so it is new
      flags_nodup := by
        rw [hflags, ← List.concat_eq_append]
        exact h.flags_nodup.concat hseen
      length_files := hfiles ▸ h.length_files
      seen_eq := by rw [hflags, ← h.seen_eq]
      input_eq := by rw [hfiles]; exact h.input_eq
      escaped_iff := iff_of_false hescaped hmem' }
  | file hescaped hfile hinput =>
    have hmem := mt h.escaped_iff.2 hescaped
    have hmem' := not_mem_concat hmem hfile.ne_escape
    obtain ⟨hbefore, hflags, hfiles⟩ := concat_file hmem hfile
    rw [hnone hinput] at hfiles
    exact {
      -- the argument is known because it is a file
      known := by
        rw [hbefore, List.forall_mem_append]
        exact ⟨h.known, by simp [hfile]⟩
      flags_nodup := hflags ▸ h.flags_nodup
      length_files := by rw [hfiles]; rfl
      seen_eq := by rw [hflags]; exact h.seen_eq
      input_eq := by rw [hfiles]; rfl
      escaped_iff := iff_of_false hescaped hmem' }

/-- What has been read is known, and it was without mistakes. -/
theorem readSoFar_of_foldlM {arguments : List String} {progress : Progress}
    (h : arguments.foldlM Progress.readArgument Progress.start = .ok progress) :
    ReadSoFar arguments progress := by
  -- the argument that has been read last comes off first, so the induction is from the end
  induction arguments using List.reverseRecOn generalizing progress with
  | nil =>
    rw [← Except.ok.inj h]
    exact readSoFar_start
  | append_singleton arguments argument ih =>
    rw [List.foldlM_append, bind_eq_ok_iff] at h
    obtain ⟨between, hbetween, hlast⟩ := h
    rw [List.foldlM_cons, bind_eq_ok_iff] at hlast
    obtain ⟨next, hnext, hend⟩ := hlast
    rw [← Except.ok.inj hend]
    exact (ih hbetween).concat (Progress.readArgument_eq_ok_iff.1 hnext)

/-- An argument that keeps a command line without mistakes can be read. -/
theorem ReadSoFar.exists_reads {arguments : List String} {progress : Progress} {argument : String}
    (h : ReadSoFar arguments progress) (hnext : WellFormed (arguments ++ [argument]))
    (hnamed : "" ∉ files arguments) : ∃ next, progress.Reads argument next := by
  -- at most one file is allowed, so none has been read when another one comes
  have hinput : files arguments = [] → progress.input = none := by
    intro hnil
    rw [h.input_eq, hnil, List.head?_nil]
  have hlength := hnext.length_files
  -- behind two dashes the argument is the one file
  by_cases hescaped : progress.escaped
  · obtain ⟨-, -, hfiles⟩ := concat_of_mem (h.escaped_iff.1 hescaped) argument
    rw [hfiles, List.length_append, List.length_singleton] at hlength
    exact ⟨_, .behind hescaped (hinput (List.length_eq_zero_iff.1 (by omega)))⟩
  -- the two dashes themselves are always read
  by_cases hdashes : argument = "--"
  · exact ⟨_, .escape hescaped hdashes⟩
  -- what stands before two dashes is a file or a flag
  have hmem := mt h.escaped_iff.2 hescaped
  have hknown : IsFile argument ∨ (Flag.ofArgument? argument).isSome := by
    refine hnext.known argument ?_
    rw [(concat_of_not_mem hmem hdashes).1]
    exact List.mem_append_right _ (List.mem_singleton.2 rfl)
  rcases hknown with hfile | hflag
  · obtain ⟨-, -, hfiles⟩ := concat_file hmem hfile
    rw [hfiles, List.length_append, List.length_singleton] at hlength
    exact ⟨_, .file hescaped hfile (hinput (List.length_eq_zero_iff.1 (by omega)))⟩
  · obtain ⟨flag, hflag⟩ := Option.isSome_iff_exists.1 hflag
    obtain ⟨-, hflags, -⟩ := concat_flag hmem hflag
    have hnodup := hnext.flags_nodup
    rw [hflags] at hnodup
    -- no file without a name has been read, and the flag is new
    refine ⟨_, .flag hescaped hflag ?_ ?_⟩
    · rw [h.input_eq]
      exact fun hhead => hnamed (List.mem_of_head? hhead)
    · rw [h.seen_eq]
      exact fun hseen => List.disjoint_of_nodup_append hnodup hseen (List.mem_singleton.2 rfl)

/-- A command line without mistakes can be read to its end. -/
theorem exists_foldlM {arguments : List String} (h : WellFormed arguments)
    (hnamed : "" ∉ files arguments) :
    ∃ progress, arguments.foldlM Progress.readArgument Progress.start = .ok progress := by
  -- as in `readSoFar_of_foldlM`, from the end
  induction arguments using List.reverseRecOn with
  | nil => exact ⟨_, rfl⟩
  | append_singleton arguments argument ih =>
    have hnamed' : "" ∉ files arguments :=
      mt (fun hmem => (prefix_concat arguments argument).2.2.subset hmem) hnamed
    obtain ⟨progress, hprogress⟩ := ih h.of_concat hnamed'
    obtain ⟨next, hnext⟩ := (readSoFar_of_foldlM hprogress).exists_reads h hnamed'
    refine ⟨next, ?_⟩
    rw [List.foldlM_append, bind_eq_ok_iff]
    -- all but the last argument are read, and the last one can be
    refine ⟨progress, hprogress, ?_⟩
    rw [List.foldlM_cons, Progress.readArgument_eq_ok_iff.2 hnext]
    rfl

theorem eq_singleton_of_mem {paths : List String} {path : String} (hlength : paths.length ≤ 1)
    (h : path ∈ paths) : paths = [path] := by
  have hpos := List.length_pos_of_mem h
  obtain ⟨other, rfl⟩ := List.length_eq_one_iff.1 (by omega : paths.length = 1)
  rw [List.mem_singleton.1 h]

theorem finish_eq_ok_iff {progress : Progress} {options : Options} :
    progress.finish = .ok options ↔
      progress.input ≠ some "" ∧ ¬ (progress.input.isSome ∧ .sample ∈ progress.seen) ∧
        options = {
          input := progress.input
          sample := .sample ∈ progress.seen
          tokens := .tokens ∈ progress.seen
          strict := .strict ∈ progress.seen
          verbose := .verbose ∈ progress.seen } := by
  unfold Progress.finish
  split
  · -- the file has no name
    next hempty => exact iff_of_false nofun fun h => h.1 hempty
  split
  · -- a file and the sample
    next hconflict => exact iff_of_false nofun fun h => h.2.1 hconflict
  · next hempty hconflict =>
    rw [Except.ok.injEq]
    exact ⟨fun h => ⟨hempty, hconflict, h.symm⟩, fun h => h.2.2.symm⟩

/-- Which command lines are accepted, and what they ask for. -/
theorem parse_eq_ok_iff {arguments : List String} {options : Options} :
    parse arguments = .ok options ↔ Acceptable arguments ∧ options = asked arguments := by
  have hparse : parse arguments = arguments.foldlM Progress.readArgument Progress.start >>=
      Progress.finish := rfl
  rw [hparse, bind_eq_ok_iff]
  constructor
  · -- what has been read is what `asked` asks for, and finishing checks the rest
    rintro ⟨progress, hread, hfinish⟩
    have h := readSoFar_of_foldlM hread
    rw [finish_eq_ok_iff, h.input_eq, h.seen_eq] at hfinish
    obtain ⟨hempty, hconflict, hoptions⟩ := hfinish
    -- what is left to show: the one file has a name, and it comes without the sample
    refine ⟨⟨h.toWellFormed, fun hmem => hempty ?_, fun hne hsample => hconflict ⟨?_, hsample⟩⟩,
      hoptions⟩
    · rw [eq_singleton_of_mem h.length_files hmem, List.head?_cons]
    · exact List.isSome_head?.2 hne
  · rintro ⟨h, rfl⟩
    -- without mistakes nothing stops the reading, and the same facts let it finish
    obtain ⟨progress, hread⟩ := exists_foldlM h.toWellFormed h.named
    have hsofar := readSoFar_of_foldlM hread
    refine ⟨progress, hread, ?_⟩
    rw [finish_eq_ok_iff, hsofar.input_eq, hsofar.seen_eq]
    refine ⟨fun hhead => h.named (List.mem_of_head? hhead), ?_, rfl⟩
    rintro ⟨hsome, hsample⟩
    refine h.no_conflict ?_ hsample
    rintro hnil
    rw [hnil] at hsome
    cases hsome

/-! ## Order -/

/-- A flag is given if one of its names stands before the first two dashes. -/
theorem mem_flags_iff {arguments : List String} {flag : Flag} :
    flag ∈ flags arguments ↔ ∃ name ∈ flag.names, name ∈ beforeEscape arguments := by
  simp only [flags, List.mem_filterMap, Flag.ofArgument?_eq_some_iff]
  exact exists_congr fun _ => And.comm

/-- What stands from the first two dashes on is found behind any other flags and files. -/
theorem escape_append_fromEscape {front : List String} (h : "--" ∉ front)
    (arguments : List String) :
    beforeEscape (front ++ fromEscape arguments) = front ∧
      behindEscape (front ++ fromEscape arguments) = behindEscape arguments := by
  -- without dashes among the arguments there is nothing from them on
  by_cases hmem : "--" ∈ arguments
  · obtain ⟨before, rest, rfl, hbefore⟩ := List.eq_append_cons_of_mem hmem
    rw [fromEscape_append hbefore, beforeEscape_append h, behindEscape_append h,
      behindEscape_append hbefore]
    exact ⟨rfl, rfl⟩
  · rw [fromEscape_of_not_mem hmem, List.append_nil, beforeEscape_of_not_mem h,
      behindEscape_of_not_mem h, behindEscape_of_not_mem hmem]
    exact ⟨rfl, rfl⟩

theorem not_mem_beforeEscape (arguments : List String) : "--" ∉ beforeEscape arguments := by
  intro hmem
  rw [beforeEscape] at hmem
  have hne := List.mem_takeWhile_imp hmem
  exact of_decide_eq_true hne rfl

/-- A list of at most one file has one order. -/
theorem files_eq_of_perm {paths paths' : List String} (h : paths.length ≤ 1)
    (hperm : paths'.Perm paths) : paths' = paths := by
  match paths, h with
  | [], _ => exact hperm.eq_nil
  | [_], _ => exact hperm.eq_singleton

/-- The order of the arguments before the first two dashes does not matter. -/
theorem parse_eq_ok_of_perm {arguments front : List String} {options : Options}
    (hperm : front.Perm (beforeEscape arguments)) (h : parse arguments = .ok options) :
    parse (front ++ fromEscape arguments) = .ok options := by
  obtain ⟨hacceptable, rfl⟩ := parse_eq_ok_iff.1 h
  -- the front can be cut off again, since no dashes have come into it
  have hfront : "--" ∉ front := fun hmem => not_mem_beforeEscape arguments (hperm.subset hmem)
  obtain ⟨hbefore, hbehind⟩ := escape_append_fromEscape hfront arguments
  -- no flag is lost or given twice
  have hflags : (flags (front ++ fromEscape arguments)).Perm (flags arguments) := by
    rw [flags, flags, hbefore]
    exact hperm.filterMap _
  -- there is one file at most, and it has only one place
  have hfiles : files (front ++ fromEscape arguments) = files arguments := by
    refine files_eq_of_perm hacceptable.length_files ?_
    rw [files, files, hbefore, hbehind]
    exact (hperm.filter _).append_right _
  -- acceptable as before, with the same options
  refine parse_eq_ok_iff.2 ⟨?_, ?_⟩
  · exact {
      known := fun argument hmem => hacceptable.known argument (hperm.subset (hbefore ▸ hmem))
      flags_nodup := hflags.nodup_iff.2 hacceptable.flags_nodup
      length_files := hfiles ▸ hacceptable.length_files
      named := hfiles ▸ hacceptable.named
      no_conflict := fun hne hmem =>
        hacceptable.no_conflict (hfiles ▸ hne) (hflags.mem_iff.1 hmem) }
  · simp only [asked, hfiles, hflags.mem_iff]

theorem head?_toList_of_length_le {paths : List String} (h : paths.length ≤ 1) :
    paths.head?.toList = paths := by
  match paths, h with
  | [], _ => rfl
  | [_], _ => rfl

/-- A command line is accepted if it has no mistake, and what it asks for can be read off it: each
flag from its names, and the file, which is never there together with the sample.  The arguments
before the first two dashes may then be in any order, for the same options and the same run. -/
theorem accepted_in_any_order (arguments : List String) :
    ((∃ options, parse arguments = .ok options) ↔ Acceptable arguments) ∧
    ∀ options, parse arguments = .ok options →
      (options.sample ↔ "--sample" ∈ beforeEscape arguments) ∧
      (options.tokens ↔ "--tokens" ∈ beforeEscape arguments) ∧
      (options.strict ↔ "--strict" ∈ beforeEscape arguments) ∧
      (options.verbose ↔ "--verbose" ∈ beforeEscape arguments ∨ "-v" ∈ beforeEscape arguments) ∧
      options.input.toList = files arguments ∧
      ¬ (options.input.isSome ∧ options.sample) ∧
      ∀ front, front.Perm (beforeEscape arguments) →
        parse (front ++ fromEscape arguments) = .ok options ∧
        ∀ contents out err, (parse (front ++ fromEscape arguments)).map (run · contents out err) =
          (parse arguments).map (run · contents out err) := by
  refine ⟨?_, fun options h => ?_⟩
  · -- a command line asks for `asked arguments` and nothing else
    simp only [parse_eq_ok_iff, exists_and_left, exists_eq, and_true]
  obtain ⟨hacceptable, hasked⟩ := parse_eq_ok_iff.1 h
  -- from here on the options are those that the command line asks for
  subst hasked
  refine ⟨?_, ?_, ?_, ?_, head?_toList_of_length_le hacceptable.length_files, ?_, ?_⟩
  · -- each flag is told from its names
    simp [asked, mem_flags_iff, Flag.names]
  · simp [asked, mem_flags_iff, Flag.names]
  · simp [asked, mem_flags_iff, Flag.names]
  · simp [asked, mem_flags_iff, Flag.names]
  · -- the sample would be in conflict with the file
    rintro ⟨hinput, hsample⟩
    exact hacceptable.no_conflict (List.isSome_head?.1 hinput) (of_decide_eq_true hsample)
  · -- reordered arguments are accepted with the same options, so the run is the same
    intro front hperm
    have hfront := parse_eq_ok_of_perm hperm h
    exact ⟨hfront, fun contents out err => by rw [hfront, h]⟩

/-- Behind two dashes there are files, even one that is called like a flag. -/
theorem accepted_in_any_order_escaped :
    parse ["-v", "--tokens", "--", "--strict"] =
      .ok ⟨some "--strict", false, true, false, true⟩ ∧
    parse ["--tokens", "-v", "--", "--strict"] =
      .ok ⟨some "--strict", false, true, false, true⟩ := by
  have h : parse ["-v", "--tokens", "--", "--strict"] =
      .ok ⟨some "--strict", false, true, false, true⟩ := by decide
  obtain ⟨-, -, -, -, -, -, horder⟩ := (accepted_in_any_order _).2 _ h
  exact ⟨h, (horder ["--tokens", "-v"] (List.Perm.swap "-v" "--tokens" [])).1⟩

end TokenCensus.Command

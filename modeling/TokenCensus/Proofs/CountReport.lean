import Mathlib.Data.List.Basic
import TokenCensus.Proofs.Tally
import TokenCensus.Proofs.TokenText
import TokenCensus.Report

/-!
# The report of counts loses nothing

A report prints texts as they are, and yet it can be read back.  A line starts with the name of its
kind, and the kinds have different initials.  Behind it stand the entries of the kind, each closed
in itself: the kind tells where the text ends, a bracket closes the number, and a comma or the end
of the line tells whether there is another entry.  The empty line before the total closes it all.

This rests on what the texts of tokens can be.  Tables that are filled with other texts can have the
same report although they differ.

## Key results

- `selfDelimiting_entry`, `selfDelimiting_kindLine`: entries and lines can be read back
- `eq_of_slotLines`: the lines of all kinds can be read back
- `legible_slots_tokenTable`: a table of a source counts texts of tokens only
- `countLines_tokenTable_inj`: reports are the same exactly for the same counts
-/

namespace TokenCensus

open Report (kindLine countLines)

/-! ## One line -/

/-- An entry can be read back by who knows the kind of its text. -/
theorem selfDelimiting_entry (kind : Kind) :
    SelfDelimiting (fun entry : String × Nat => kind.Spells entry.1.toList)
      fun entry => (Report.entry entry.1 entry.2).toList := by
  have hbracket : '[' ∈ textMarks := by decide
  -- the text ends at its bracket, since it can be read back in front of one
  have htext := kind.selfDelimiting_spells hbracket
  -- the number ends at the closing bracket, which is no digit
  have hnumber := selfDelimiting_repr (show ']'.isDigit = false by decide)
  have hpair := (htext.append hnumber).comap
    (f := fun entry : String × Nat => (entry.1.toList, entry.2))
    fun x y h => Prod.ext (String.toList_inj.1 (Prod.mk.inj h).1) (Prod.mk.inj h).2
  intro x y rest rest' hx hy heq
  -- an entry is its text, a bracket, and a number
  apply hpair x y rest rest' ⟨hx, trivial⟩ ⟨hy, trivial⟩
  simpa [Report.entry] using heq

theorem Counts.eq_of_entries {x y : Counts} (h : x.entries = y.entries) : x = y := by
  cases x
  cases y
  exact congrArg Counts.mk h

/-- The texts that are counted are texts of the kind. -/
def Counts.Legible (kind : Kind) (counts : Counts) : Prop :=
  ∀ entry ∈ counts.entries, kind.Spells entry.1.toList

/-- The line of a kind can be read back. -/
theorem selfDelimiting_kindLine (kind : Kind) :
    SelfDelimiting (fun counts : Counts => counts.isEmpty = false ∧ counts.Legible kind)
      fun counts => (kindLine kind counts).toList := by
  have hcomma : ',' ≠ '\n' := by decide
  -- entries have commas between them, and the line has its newline behind them
  have hentries := (selfDelimiting_entry kind).intercalate hcomma [' ']
  have hline := (hentries.comap fun _ _ => Counts.eq_of_entries).const_append
    (kind.label ++ ": ").toList
  intro x y rest rest' hx hy heq
  apply hline x y rest rest'
  · exact hx.imp_left List.isEmpty_eq_false_iff.1
  · exact hy.imp_left List.isEmpty_eq_false_iff.1
  · simpa [kindLine, String.toList_intercalate, Function.comp_def] using heq

/-! ## The lines of all kinds -/

/-- The lines of a report before the empty one.  Kinds without tokens have none. -/
def slotLines (slots : List (Kind × Counts)) : List Char :=
  (slots.filter fun slot => !slot.2.isEmpty).flatMap fun slot => (kindLine slot.1 slot.2).toList

theorem slotLines_cons_empty (kind : Kind) (slots : List (Kind × Counts)) :
    slotLines ((kind, Counts.empty) :: slots) = slotLines slots := rfl

theorem slotLines_cons {kind : Kind} {counts : Counts} (h : counts.isEmpty = false)
    (slots : List (Kind × Counts)) :
    slotLines ((kind, counts) :: slots) = (kindLine kind counts).toList ++ slotLines slots := by
  rw [slotLines, List.filter_cons_of_pos (by simp [h]), List.flatMap_cons, slotLines]

theorem Counts.eq_empty_or (counts : Counts) : counts = .empty ∨ counts.isEmpty = false := by
  obtain ⟨entries⟩ := counts
  cases entries with
  | nil => exact .inl rfl
  | cons entry entries => exact .inr rfl

/-- The first character of a line tells the kind. -/
def Kind.initial (kind : Kind) : Option Char := kind.label.toList.head?

theorem head?_kindLine (kind : Kind) (counts : Counts) (rest : List Char) :
    ((kindLine kind counts).toList ++ rest).head? = kind.initial := by
  -- labels are not empty, so the first character of the line is theirs
  have hlabel : kind.label.toList ≠ [] := by cases kind <;> decide
  simp [kindLine, Kind.initial, List.head?_append, List.head?_eq_some_head hlabel]

/-- The first characters that a report can have: those of its kinds, or that of the empty line. -/
def initials (kinds : List Kind) : List (Option Char) :=
  some '\n' :: kinds.map Kind.initial

theorem head?_slotLines (slots : List (Kind × Counts)) (rest : List Char) :
    (slotLines slots ++ '\n' :: rest).head? ∈ initials (slots.map Prod.fst) := by
  induction slots with
  | nil => exact List.mem_cons_self
  | cons slot slots ih =>
    obtain ⟨kind, counts⟩ := slot
    rcases counts.eq_empty_or with rfl | hcounts
    · -- the kind has no line, so the next one decides
      rw [slotLines_cons_empty]
      simp only [initials, List.map_cons, List.mem_cons] at ih ⊢
      exact ih.imp_right .inr
    · -- the kind has a line, which starts with its label
      rw [slotLines_cons hcounts, List.append_assoc, head?_kindLine]
      simp [initials]

/-- Where the line of a kind is left out, the next line does not start as it does. -/
theorem kindLine_ne_slotLines {kind : Kind} {counts : Counts} {slots : List (Kind × Counts)}
    {rest rest' : List Char} (hinitial : kind.initial ∉ initials (slots.map Prod.fst)) :
    (kindLine kind counts).toList ++ rest ≠ slotLines slots ++ '\n' :: rest' := by
  intro h
  have hhead := head?_slotLines slots rest'
  rw [← h, head?_kindLine] at hhead
  exact hinitial hhead

/-- The lines of all kinds can be read back by who knows the kinds, if no two kinds start alike and
none starts as the empty line does. -/
theorem eq_of_slotLines {slots slots' : List (Kind × Counts)} {rest rest' : List Char}
    (hkinds : slots'.map Prod.fst = slots.map Prod.fst)
    (hinitials : (initials (slots.map Prod.fst)).Nodup)
    (hslots : ∀ slot ∈ slots, slot.2.Legible slot.1)
    (hslots' : ∀ slot ∈ slots', slot.2.Legible slot.1)
    (h : slotLines slots ++ '\n' :: rest = slotLines slots' ++ '\n' :: rest') :
    slots = slots' := by
  -- kind by kind; what the first kind has is settled before the others are looked at
  induction slots generalizing slots' with
  | nil => exact (List.map_eq_nil_iff.1 hkinds).symm
  | cons slot slots ih =>
    obtain ⟨kind, counts⟩ := slot
    obtain ⟨⟨_, counts'⟩, slots', rfl, rfl, htail⟩ := List.map_eq_cons_iff.1 hkinds
    obtain ⟨hlegible, hslots⟩ := List.forall_mem_cons.1 hslots
    obtain ⟨hlegible', hslots'⟩ := List.forall_mem_cons.1 hslots'
    -- this kind starts unlike all that follow
    obtain ⟨hinitial, hnodup⟩ :=
      List.nodup_cons.1 ((List.Perm.swap _ _ _).nodup_iff.1 hinitials)
    have htails := ih htail hnodup hslots hslots'
    rcases counts.eq_empty_or with rfl | hcounts <;> rcases counts'.eq_empty_or with rfl | hcounts'
    · rw [htails h]
    · -- only one side has a line, and it would start as the other line does not
      rw [slotLines_cons_empty, slotLines_cons hcounts', List.append_assoc] at h
      exact absurd h.symm (kindLine_ne_slotLines hinitial)
    · rw [slotLines_cons_empty, slotLines_cons hcounts, List.append_assoc] at h
      exact absurd h (kindLine_ne_slotLines (htail ▸ hinitial))
    · -- both have a line, each ends where it can be told to, and the same follows
      rw [slotLines_cons hcounts, slotLines_cons hcounts', List.append_assoc,
        List.append_assoc] at h
      obtain ⟨rfl, hrest⟩ := selfDelimiting_kindLine _ _ _ _ _ ⟨hcounts, hlegible⟩
        ⟨hcounts', hlegible'⟩ h
      rw [htails hrest]

/-! ## The report of a source -/

theorem toList_countLines (table : TokenTable) :
    (countLines table).toList = slotLines table.slots ++
      '\n' :: ("Total tokens found: " ++ table.total.repr ++ "\n").toList := by
  simp [countLines, slotLines, String.toList_join, List.flatMap_map]

/-- Tables of legible texts have the same report only if they have the same counts. -/
theorem slots_eq_of_countLines {a b : TokenTable} (ha : ∀ slot ∈ a.slots, slot.2.Legible slot.1)
    (hb : ∀ slot ∈ b.slots, slot.2.Legible slot.1) (h : countLines a = countLines b) :
    a.slots = b.slots := by
  -- each kind has a letter of its own, and the empty line starts with its newline
  have hinitials : (initials Kind.emitted).Nodup := by decide
  apply eq_of_slotLines _ _ ha hb
  · rw [← toList_countLines, ← toList_countLines, h]
  · rw [TokenTable.slots_map_fst, TokenTable.slots_map_fst]
  · rwa [TokenTable.slots_map_fst]

/-- The table of a source counts texts of tokens only. -/
theorem legible_slots_tokenTable (text : String) :
    ∀ slot ∈ (tokenTable text).slots, slot.2.Legible slot.1 := by
  intro slot hslot entry hentry
  have hholds : (tokenTable text).Holds fun kind text => kind.Spells text.toList :=
    TokenTable.holds_ofScan spells_of_mem_tokens
  exact hholds slot.1 slot.2 (TokenTable.get?_of_mem_slots hslot) entry.1
    (List.mem_map_of_mem hentry)

/-- Two sources have the same report exactly if each kind has the same texts, in the order in which
they first occurred, and each text the same count. -/
theorem countLines_tokenTable_inj (a b : String) :
    countLines (tokenTable a) = countLines (tokenTable b) ↔
      ∀ kind ∈ Kind.emitted,
        ((tokenTable a).get? kind).map Counts.entries =
          ((tokenTable b).get? kind).map Counts.entries := by
  constructor
  · intro h kind _
    have hslots := slots_eq_of_countLines (legible_slots_tokenTable a)
      (legible_slots_tokenTable b) h
    rw [← TokenTable.lookup_slots, ← TokenTable.lookup_slots, hslots]
  · intro h
    have hslots : (tokenTable a).slots = (tokenTable b).slots := by
      apply List.filterMap_congr
      intro kind hkind
      rw [(Option.map_inj_right fun _ _ => Counts.eq_of_entries).1 (h kind hkind)]
    rw [countLines, countLines, TokenTable.total, TokenTable.total, hslots]

-- texts that no scan finds can make two reports the same: both lines read `a[1], b[1], c[1]`
example :
    countLines { TokenTable.empty with identifier := ⟨[("a[1], b", 1), ("c", 1)]⟩ } =
      countLines { TokenTable.empty with identifier := ⟨[("a", 1), ("b[1], c", 1)]⟩ } := by
  decide +kernel

end TokenCensus

/-
Where the candidates that are shown come from.

Candidates appear when something is looked up, and stay until the segment is left; in between
only another one of them becomes the current one.

* `Situation.types_direct`, `types_compose`, `types_abbreviate`: a key that types looks up at
  most, and leaves the dictionaries as they are;
* `Situation.shown_handle`: after any key, what is shown has just been found, in the dictionaries
  as the key left them, or it is what was shown before.
-/
import KanaKanji.Proofs.Session.Cancel
import KanaKanji.Proofs.Session.Lookup

namespace KanaKanji

namespace Segment

/-- The segment `after` shows the candidates of `before`, perhaps another of them. -/
inductive Keeps : Segment → Segment → Prop
  | selecting {selection other : Selection} (key : other.key = selection.key)
      (candidates : other.candidates = selection.candidates) :
      Keeps (.selecting selection) (.selecting other)
  | completing {selection other : Selection} (key : other.key = selection.key)
      (candidates : other.candidates = selection.candidates) :
      Keeps (.completing selection) (.completing other)

theorem Keeps.of_completing {before : Segment} {selection : Selection}
    (h : before.Keeps (.completing selection)) :
    ∃ earlier, before = .completing earlier ∧ selection.key = earlier.key ∧
      selection.candidates = earlier.candidates := by
  cases h with
  | completing key candidates => exact ⟨_, rfl, key, candidates⟩

theorem Keeps.exists_selection? {before after : Segment}
    (h : before.innermost.Keeps after.innermost) {selection : Selection}
    (hselection : after.selection? = some selection) :
    ∃ earlier, before.selection? = some earlier ∧ selection.key = earlier.key ∧
      selection.candidates = earlier.candidates := by
  unfold selection? at hselection ⊢
  generalize before.innermost = first at h
  generalize after.innermost = second at h hselection
  cases h with
  | selecting key candidates =>
    obtain rfl := Option.some.inj hselection
    exact ⟨_, rfl, key, candidates⟩
  | completing key candidates =>
    obtain rfl := Option.some.inj hselection
    exact ⟨_, rfl, key, candidates⟩

end Segment

namespace Situation

variable {s : Situation} {event : KeyEvent} {segment : Segment}

/-- Candidates that the segment shows are what a lookup has found. -/
def Finds (s : Situation) (segment : Segment) : Prop :=
  ∀ selection, segment.selection? = some selection →
    ∃ lookup : Lookup, segment.innermost = lookup.choosing selection ∧
      selection.key = lookup.key ∧ selection.candidates = s.found lookup

/-- The outcome of a key that only types: the dictionaries are as before, and what is shown has
been found in them. -/
structure Types (s : Situation) (outcome : Outcome) : Prop where
  shelf : outcome.shelf = s.shelf
  finds : s.Finds outcome.segment

/-! ### Looking up -/

theorem finds_of_none (h : segment.selection? = none) : s.Finds segment :=
  fun _ hsome => nomatch h.symm.trans hsome

theorem finds_editing (key : ConversionKey) (origin : Origin) :
    s.Finds (.editing key origin) := by
  cases origin <;> exact finds_of_none rfl

theorem finds_conversion (s : Situation) (key : ConversionKey) (origin : Origin) :
    s.Finds (s.conversion key origin) := by
  unfold conversion
  split
  · rename_i selection hfirst
    obtain ⟨hkey, -, hcandidates, -⟩ := Selection.first?_eq_some hfirst
    intro other ho
    obtain rfl := Option.some.inj ho
    exact ⟨.conversion key, rfl, hkey, hcandidates⟩
  · split
    · exact finds_of_none rfl
    · exact finds_editing key origin

theorem finds_completion {stay : Segment} (hstay : stay.selection? = none) (yomi : Text)
    (origin : Origin) : s.Finds (s.completion stay yomi origin) := by
  unfold completion
  split
  · rename_i selection hfirst
    obtain ⟨hkey, -, hcandidates, -⟩ := Selection.first?_eq_some hfirst
    intro other ho
    obtain rfl := Option.some.inj ho
    exact ⟨.completion yomi, rfl, hkey, hcandidates⟩
  · exact finds_of_none hstay

theorem finds_afterTyping (s : Situation) (old b : Buffer) : s.Finds (s.afterTyping old b) := by
  unfold afterTyping
  split
  · exact finds_conversion s _ _
  · split
    · split
      · exact finds_conversion s _ _
      · exact finds_of_none rfl
    · exact finds_of_none rfl

/-! ### Typing -/

/-- The key leads to a segment that shows nothing. -/
theorem types_of_none {outcome : Outcome} (hshelf : outcome.shelf = s.shelf)
    (h : outcome.segment.selection? = none) : s.Types outcome :=
  ⟨hshelf, finds_of_none h⟩

theorem types_composeCommand? {b : Buffer} {outcome : Outcome}
    (h : s.composeCommand? b event = some outcome) : s.Types outcome := by
  unfold composeCommand? at h
  split_ifs at h <;> obtain rfl := Option.some.inj h
  · unfold convert
    dsimp only
    split
    · exact types_of_none rfl rfl
    · exact ⟨rfl, finds_conversion s _ _⟩
  · exact types_of_none rfl rfl
  · unfold popReading
    dsimp only
    split
    · exact types_of_none rfl rfl
    · exact types_of_none rfl rfl
  · unfold completeReading
    split
    · exact types_of_none rfl rfl
    · exact ⟨rfl, finds_completion rfl _ _⟩
  · exact types_of_none rfl rfl
  · exact types_of_none rfl rfl

theorem types_typeDirect (s : Situation) (tail : Text) (event : KeyEvent) (c : Char) :
    s.Types (s.typeDirect tail event c) := by
  unfold typeDirect
  split
  · unfold openReading
    cases ho : s.composeCommand? .empty event with
    | some outcome => exact ⟨(types_composeCommand? ho).shelf, (types_composeCommand? ho).finds⟩
    | none => exact ⟨rfl, finds_afterTyping s _ _⟩
  · exact types_of_none rfl rfl

theorem types_directCommand? {tail : Text} {outcome : Outcome}
    (h : s.directCommand? tail event = some outcome) : s.Types outcome := by
  unfold directCommand? at h
  dsimp only at h
  split_ifs at h <;> obtain rfl := Option.some.inj h <;> exact types_of_none rfl rfl

theorem types_direct (s : Situation) (tail : Text) (event : KeyEvent) :
    s.Types (s.direct tail event) := by
  by_cases hlatin : s.mode.isLatin = true
  · obtain ⟨hsegment, hshelf, -⟩ := s.latin_eq tail event
    rw [direct, if_pos hlatin]
    exact types_of_none hshelf (by rw [hsegment]; rfl)
  · rw [direct, if_neg hlatin, romaji]
    dsimp only
    split_ifs
    · exact types_of_none rfl rfl
    · exact types_of_none rfl rfl
    · exact types_of_none rfl rfl
    · exact types_of_none rfl rfl
    · cases event.printable with
      | none => exact types_of_none rfl rfl
      | some c =>
        dsimp only
        cases ho : s.directCommand? tail event with
        | some outcome => exact types_directCommand? ho
        | none => exact types_typeDirect s tail event c

theorem types_compose (s : Situation) (b : Buffer) (event : KeyEvent) :
    s.Types (s.compose b event) := by
  unfold compose
  cases ho : s.composeCommand? b event with
  | some outcome => exact types_composeCommand? ho
  | none =>
    cases event.printable with
    | none => exact types_of_none rfl rfl
    | some c =>
      dsimp only
      split
      · exact ⟨(types_direct s [] event).shelf, (types_direct s [] event).finds⟩
      · exact ⟨rfl, finds_afterTyping s b _⟩

theorem types_abbreviate (s : Situation) (letters : Text) (event : KeyEvent) :
    s.Types (s.abbreviate letters event) := by
  unfold abbreviate
  dsimp only
  split_ifs
  · exact types_of_none rfl rfl
  · exact ⟨rfl, finds_conversion s _ _⟩
  · exact types_of_none rfl rfl
  · exact ⟨rfl, finds_completion rfl _ _⟩
  · exact types_of_none rfl rfl
  · exact types_of_none rfl rfl
  · exact types_of_none rfl rfl
  · cases event.printable with
    | none => exact types_of_none rfl rfl
    | some c => exact types_of_none rfl rfl

/-! ### Any key -/

/-- What the outcome shows has been found on the shelf that it leaves, or is what the segment
shows. -/
def Shown (s : Situation) (segment : Segment) (outcome : Outcome) : Prop :=
  Finds { s with shelf := outcome.shelf } outcome.segment ∨
    segment.innermost.Keeps outcome.segment.innermost

theorem Types.shown {outcome : Outcome} (h : s.Types outcome) (segment : Segment) :
    s.Shown segment outcome := by
  left
  rw [h.shelf]
  exact h.finds

theorem shown_commitAndType {stay : Segment} (hstay : segment.innermost.Keeps stay.innermost)
    (selection : Selection) (event : KeyEvent) :
    s.Shown segment (s.commitAndType stay selection event) := by
  unfold commitAndType
  cases event.printable with
  | none => exact Or.inr hstay
  | some c =>
    -- what is typed behind the commit finds the dictionaries as that has left them
    exact (types_direct { s with shelf := (s.commitCurrent selection).shelf } [] event).shown
      segment

theorem shown_select (s : Situation) (selection : Selection) (event : KeyEvent) :
    s.Shown (.selecting selection) (s.select selection event) := by
  unfold select
  dsimp only
  split_ifs
  · exact Or.inr (.selecting rfl rfl)
  · exact Or.inr (.selecting rfl rfl)
  · exact Or.inl (finds_of_none rfl)
  · exact Or.inl (finds_of_none rfl)
  · exact Or.inr (.selecting rfl rfl)
  · exact Or.inl (finds_editing _ _)
  · exact Or.inl (finds_of_none rfl)
  · refine shown_commitAndType ?_ selection event
    exact .selecting rfl rfl

theorem shown_complete (s : Situation) (selection : Selection) (event : KeyEvent) :
    s.Shown (.completing selection) (s.complete selection event) := by
  unfold complete
  dsimp only
  split_ifs
  · exact Or.inr (.completing rfl rfl)
  · exact Or.inr (.completing rfl rfl)
  · exact Or.inl (finds_conversion s _ _)
  · exact Or.inl (finds_editing _ _)
  · exact Or.inl (finds_of_none rfl)
  · exact Or.inl (finds_of_none rfl)
  · refine shown_commitAndType ?_ selection event
    exact .completing rfl rfl

theorem shown_registrationCommand? {key : ConversionKey} {origin : Origin} {text tail : Text}
    {outcome : Outcome} (h : s.registrationCommand? key origin text tail event = some outcome) :
    s.Shown (.registering key origin text (.direct tail)) outcome := by
  unfold registrationCommand? at h
  split_ifs at h <;> obtain rfl := Option.some.inj h
  · unfold confirm
    split
    · exact Or.inl (finds_editing _ _)
    · exact Or.inl (finds_of_none rfl)
  · exact Or.inl (finds_of_none rfl)

/-- **What is shown after a key** has just been found, or it was shown before. -/
theorem shown_handle (s : Situation) (segment : Segment) (event : KeyEvent) :
    s.Shown segment (s.handle segment event) := by
  refine handle_induction (P := Shown) event ?cancelled ?direct ?composing ?abbreviation
    ?selecting ?completing ?command ?inside s segment
  case cancelled =>
    intro s segment _ _
    exact Or.inl (finds_of_none rfl)
  case direct =>
    intro s tail
    exact (types_direct s tail event).shown _
  case composing =>
    intro s b _
    exact (types_compose s b event).shown _
  case abbreviation =>
    intro s letters _
    exact (types_abbreviate s letters event).shown _
  case selecting =>
    intro s selection _
    exact shown_select s selection event
  case completing =>
    intro s selection _
    exact shown_complete s selection event
  case command =>
    intro s key origin text tail outcome _ hcommand
    exact shown_registrationCommand? hcommand
  case inside =>
    intro s key origin text inner _ ih
    exact ih

end Situation

end KanaKanji

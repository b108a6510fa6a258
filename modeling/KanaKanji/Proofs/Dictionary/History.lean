/-
Dictionaries and what has been written to them.

A dictionary that can be written to starts from words, those that it is given or those of a
snapshot (`Dictionary.Seeded`), and is then edited, one edit after the other
(`Dictionary.editedBy`).  Which entries it lists can be told from the words and the edits alone:

* `Edit.registered`: the entries that have been registered under a reading and that no later edit
  is about, the last registration first;
* `Dictionary.lookup_editedBy`: these come first, and behind them what was there before and no
  edit is about;
* `Dictionary.lists_editedBy`: a surface is listed when it has been registered, or was there
  before, and has not been purged since.

`Dictionary.Remembers` puts together what holds of a dictionary after any edits.
-/
import KanaKanji.Dictionary.Snapshot
import KanaKanji.Proofs.Dictionary.Tidy

namespace KanaKanji

/-- What is asked of a dictionary that can be written to. -/
inductive Edit
  | register (reading : Text) (entry : Entry)
  | purge (reading surface : Text)
  deriving DecidableEq, Repr

namespace Edit

/-- The reading that is asked about. -/
def reading : Edit → Text
  | register reading _ => reading
  | purge reading _ => reading

/-- The surface that is asked about. -/
def surface : Edit → Text
  | register _ entry => entry.surface
  | purge _ surface => surface

/-- The edit is about a surface under a reading. -/
def touches (reading surface : Text) (edit : Edit) : Bool :=
  edit.reading == reading && edit.surface == surface

/-- The entry that the edit puts under a reading.  Without a reading or a surface it is refused,
and puts none. -/
def entry? (reading : Text) : Edit → Option Entry
  | register other entry =>
    if other = reading ∧ other ≠ [] ∧ entry.surface ≠ [] then some entry else none
  | purge _ _ => none

/-- What the edit leaves of the entries that have been there for a reading. -/
def leave (edit : Edit) (reading : Text) (entries : List Entry) : List Entry :=
  entries.filter fun entry => !edit.touches reading entry.surface

/-- None of the edits is about the entry. -/
def untouched (reading : Text) (edits : List Edit) (entry : Entry) : Bool :=
  edits.all fun edit => !edit.touches reading entry.surface

/-- The entries that edits have put under a reading and that no later one is about, the last
first. -/
def registered (reading : Text) : List Edit → List Entry
  | [] => []
  | edit :: later =>
    registered reading later ++ (edit.entry? reading).toList.filter (untouched reading later)

/-! ### What an edit leaves -/

variable {reading : Text}

theorem leave_of_reading (edit : Edit) (h : edit.reading = reading) (entries : List Entry) :
    edit.leave reading entries = Entry.without entries edit.surface := by
  refine List.filter_congr fun entry _ => ?_
  simp [touches, h, bne, Bool.beq_comm]

theorem leave_of_ne (edit : Edit) (h : edit.reading ≠ reading) (entries : List Entry) :
    edit.leave reading entries = entries := by
  refine List.filter_eq_self.mpr fun entry _ => ?_
  simp [touches, h]

/-- What is refused is about nothing that is there. -/
theorem leave_of_refused {words : Headwords} (h : words.Tidy) {other : Text} {entry : Entry}
    (hrefused : ¬ (other ≠ [] ∧ entry.surface ≠ [])) (reading : Text) :
    (register other entry).leave reading (words.lookup reading) = words.lookup reading := by
  refine List.filter_eq_self.mpr fun old hold => ?_
  obtain ⟨hreading, hsurface⟩ := h.ne_nil_of_mem hold
  rw [Bool.not_eq_true', Bool.eq_false_iff]
  intro htouches
  simp only [touches, Edit.reading, surface, Bool.and_eq_true, beq_iff_eq] at htouches
  obtain ⟨rfl, hsame⟩ := htouches
  exact hrefused ⟨hreading, hsame ▸ hsurface⟩

theorem lists_leave (edit : Edit) (reading surface : Text) (entries : List Entry) :
    Entry.lists (edit.leave reading entries) surface
      = (Entry.lists entries surface && !edit.touches reading surface) :=
  Entry.lists_filter entries (fun other => !edit.touches reading other) surface

theorem filter_untouched_cons (edit : Edit) (later : List Edit) (entries : List Entry) :
    entries.filter (untouched reading (edit :: later))
      = (edit.leave reading entries).filter (untouched reading later) := by
  rw [leave, List.filter_filter]
  exact List.filter_congr fun entry _ => Bool.and_comm ..

end Edit

namespace Dictionary

variable {d : Dictionary} {reading surface : Text} {entry : Entry}

/-! ### Edits -/

/-- The dictionary that an attempt to write leaves: a refused one leaves it alone. -/
def afterWrite (d : Dictionary) : Except DictionaryError (Bool × Dictionary) → Dictionary
  | .ok (_, written) => written
  | .error _ => d

/-- The dictionary after an edit. -/
def edited (d : Dictionary) : Edit → Dictionary
  | .register reading entry => d.afterWrite (d.register reading entry)
  | .purge reading surface => d.afterWrite (d.purge reading surface)

/-- The dictionary after edits, one by one. -/
def editedBy (d : Dictionary) (edits : List Edit) : Dictionary :=
  edits.foldl edited d

@[simp] theorem editedBy_nil (d : Dictionary) : d.editedBy [] = d := rfl

@[simp] theorem editedBy_cons (d : Dictionary) (edit : Edit) (edits : List Edit) :
    d.editedBy (edit :: edits) = (d.edited edit).editedBy edits := rfl

theorem editedBy_append (d : Dictionary) (first second : List Edit) :
    d.editedBy (first ++ second) = (d.editedBy first).editedBy second :=
  List.foldl_append

/-! ### What a dictionary answers -/

/-- A dictionary that can be written to refuses only what has no reading or no surface. -/
theorem register_eq (hwritable : d.writable = true) (reading : Text) (entry : Entry) :
    d.register reading entry =
      if reading = [] then .error .emptyReading
      else if entry.surface = [] then .error .emptySurface
      else .ok (!Entry.lists (d.lookup reading) entry.surface,
        { d with words := Headwords.register d.words reading entry }) := by
  simp only [register, hwritable, Bool.not_true, List.isEmpty_iff]
  rfl

theorem purge_eq (hwritable : d.writable = true) (reading surface : Text) :
    d.purge reading surface = .ok (Entry.lists (d.lookup reading) surface,
      { d with words := Headwords.purge d.words reading surface }) := by
  rw [purge, hwritable]
  rfl

theorem edited_register (hwritable : d.writable = true) (reading : Text) (entry : Entry) :
    d.edited (.register reading entry) =
      if reading = [] ∨ entry.surface = [] then d
      else { d with words := Headwords.register d.words reading entry } := by
  rw [edited, register_eq hwritable]
  by_cases hreading : reading = []
  · simp [hreading, afterWrite]
  · by_cases hsurface : entry.surface = [] <;> simp [hreading, hsurface, afterWrite]

theorem edited_purge (hwritable : d.writable = true) (reading surface : Text) :
    d.edited (.purge reading surface)
      = { d with words := Headwords.purge d.words reading surface } := by
  rw [edited, purge_eq hwritable]
  rfl

/-! ### One edit -/

theorem name_edited (hwritable : d.writable = true) (edit : Edit) :
    (d.edited edit).name = d.name ∧ (d.edited edit).writable = true := by
  cases edit with
  | register reading entry =>
    rw [edited_register hwritable]
    split <;> exact ⟨rfl, hwritable⟩
  | purge reading surface =>
    rw [edited_purge hwritable]
    exact ⟨rfl, hwritable⟩

theorem tidy_edited (hwritable : d.writable = true) (h : d.words.Tidy) (edit : Edit) :
    (d.edited edit).words.Tidy := by
  cases edit with
  | register reading entry =>
    rw [edited_register hwritable]
    split
    · exact h
    · rename_i hkept
      rw [not_or] at hkept
      exact h.register hkept.1 hkept.2
  | purge reading surface =>
    rw [edited_purge hwritable]
    exact h.purge reading surface

/-- An edit puts its entry in front, and only what it is about goes. -/
theorem lookup_edited (hwritable : d.writable = true) (h : d.words.Tidy) (edit : Edit)
    (reading : Text) :
    (d.edited edit).lookup reading
      = (edit.entry? reading).toList ++ edit.leave reading (d.lookup reading) := by
  cases edit with
  | register other entry =>
    rw [edited_register hwritable]
    by_cases hkept : other ≠ [] ∧ entry.surface ≠ []
    · rw [if_neg (by simpa [not_or] using hkept)]
      by_cases hreading : other = reading
      · rw [Edit.leave_of_reading (.register other entry) hreading, Edit.entry?,
          if_pos ⟨hreading, hkept⟩, hreading]
        exact Headwords.lookup_change_self _ _ _
      · rw [Edit.leave_of_ne (.register other entry) hreading, Edit.entry?,
          if_neg fun hall => hreading hall.1]
        exact Headwords.lookup_change_of_ne (Ne.symm hreading) _ _
    · rw [if_pos (by simpa [or_iff_not_imp_left] using hkept), Edit.entry?,
        if_neg fun hall => hkept hall.2]
      exact (Edit.leave_of_refused h hkept reading).symm
  | purge other gone =>
    rw [edited_purge hwritable, Edit.entry?]
    by_cases hreading : other = reading
    · rw [Edit.leave_of_reading (.purge other gone) hreading, hreading]
      exact Headwords.lookup_change_self _ _ _
    · rw [Edit.leave_of_ne (.purge other gone) hreading]
      exact Headwords.lookup_change_of_ne (Ne.symm hreading) _ _

/-- An edit lists the surface that it registers, and no longer the one that it purges. -/
theorem lists_edited (hwritable : d.writable = true) (h : d.words.Tidy) (edit : Edit)
    (reading surface : Text) :
    Entry.lists ((d.edited edit).lookup reading) surface = true ↔
      (∃ entry, edit = .register reading entry ∧ entry.surface = surface ∧ reading ≠ [] ∧
          surface ≠ []) ∨
        Entry.lists (d.lookup reading) surface = true ∧ edit ≠ .purge reading surface := by
  have hwas : Entry.lists (d.lookup reading) surface = true → reading ≠ [] ∧ surface ≠ [] := by
    intro hlists
    obtain ⟨entry, hentry, rfl⟩ := List.mem_map.mp (Entry.lists_iff.mp hlists)
    exact h.ne_nil_of_mem hentry
  rw [lookup_edited hwritable h, Entry.lists_append, Edit.lists_leave, Bool.or_eq_true,
    Bool.and_eq_true]
  cases edit with
  | register other entry =>
    simp only [Edit.entry?, Edit.touches, Edit.reading, Edit.surface]
    constructor
    · rintro (hnew | ⟨hold, -⟩)
      · left
        split at hnew
        · rename_i hput
          obtain ⟨rfl, hreading, hsurface⟩ := hput
          obtain rfl : entry.surface = surface := by simpa [Entry.lists] using hnew
          exact ⟨entry, rfl, rfl, hreading, hsurface⟩
        · cases hnew
      · refine Or.inr ⟨hold, ?_⟩
        intro he
        cases he
    · rintro (⟨_, he, rfl, hreading, hsurface⟩ | ⟨hold, -⟩)
      · obtain ⟨rfl, rfl⟩ := Edit.register.inj he
        left
        rw [if_pos ⟨rfl, hreading, hsurface⟩]
        simp [Entry.lists]
      · by_cases htouches : other = reading ∧ entry.surface = surface
        · -- what was listed is registered again
          obtain ⟨rfl, rfl⟩ := htouches
          left
          rw [if_pos ⟨rfl, hwas hold⟩]
          simp [Entry.lists]
        · right
          exact ⟨hold, by simpa [imp_iff_not_or] using htouches⟩
  | purge other gone =>
    simp [Edit.entry?, Edit.touches, Edit.reading, Edit.surface, Entry.lists, imp_iff_not_or]

/-! ### Many edits -/

theorem editedBy_invariant (hwritable : d.writable = true) (h : d.words.Tidy)
    (edits : List Edit) :
    (d.editedBy edits).name = d.name ∧ (d.editedBy edits).writable = true ∧
      (d.editedBy edits).words.Tidy := by
  induction edits generalizing d with
  | nil => exact ⟨rfl, hwritable, h⟩
  | cons edit edits ih =>
    obtain ⟨hname, hwritable'⟩ := name_edited hwritable edit
    rw [editedBy_cons, ← hname]
    exact ih hwritable' (tidy_edited hwritable h edit)

/-- **What has been registered comes first, the last first, then what was there before.** -/
theorem lookup_editedBy (hwritable : d.writable = true) (h : d.words.Tidy) (edits : List Edit)
    (reading : Text) :
    (d.editedBy edits).lookup reading = Edit.registered reading edits
      ++ (d.lookup reading).filter (Edit.untouched reading edits) := by
  induction edits generalizing d with
  | nil =>
    have hall : (d.lookup reading).filter (Edit.untouched reading []) = d.lookup reading :=
      List.filter_eq_self.mpr fun _ _ => rfl
    rw [hall]
    rfl
  | cons edit edits ih =>
    -- the later edits are about what the first one registers as about what was there before
    rw [editedBy_cons, ih (name_edited hwritable edit).2 (tidy_edited hwritable h edit),
      lookup_edited hwritable h, List.filter_append, Edit.registered, Edit.filter_untouched_cons,
      List.append_assoc]

/-- **A surface is listed that has been registered, or was there before, and has not been purged
since.** -/
theorem lists_editedBy (hwritable : d.writable = true) (h : d.words.Tidy) (edits : List Edit)
    (reading surface : Text) :
    Entry.lists ((d.editedBy edits).lookup reading) surface = true ↔
      (∃ before entry later, edits = before ++ .register reading entry :: later ∧
          entry.surface = surface ∧ reading ≠ [] ∧ surface ≠ [] ∧
          .purge reading surface ∉ later) ∨
        Entry.lists (d.lookup reading) surface = true ∧ .purge reading surface ∉ edits := by
  induction edits generalizing d with
  | nil => simp
  | cons edit edits ih =>
    rw [editedBy_cons, ih (name_edited hwritable edit).2 (tidy_edited hwritable h edit),
      lists_edited hwritable h]
    constructor
    · rintro (⟨before, entry, later, rfl, hrest⟩ |
        ⟨⟨entry, rfl, hsurface, hreading, hne⟩ | ⟨hold, hedit⟩, hedits⟩)
      · exact Or.inl ⟨edit :: before, entry, later, rfl, hrest⟩
      · exact Or.inl ⟨[], entry, edits, rfl, hsurface, hreading, hne, hedits⟩
      · refine Or.inr ⟨hold, ?_⟩
        rw [List.mem_cons, not_or]
        exact ⟨Ne.symm hedit, hedits⟩
    · rintro (⟨before, entry, later, hsplit, hsurface, hreading, hne, hlater⟩ | ⟨hold, hedits⟩)
      · -- the registration is the first edit, or one of the others
        cases before with
        | nil =>
          obtain ⟨rfl, rfl⟩ := List.cons.inj hsplit
          exact Or.inr ⟨Or.inl ⟨entry, rfl, hsurface, hreading, hne⟩, hlater⟩
        | cons first before =>
          obtain ⟨rfl, rfl⟩ := List.cons.inj hsplit
          exact Or.inl ⟨before, entry, later, rfl, hsurface, hreading, hne, hlater⟩
      · rw [List.mem_cons, not_or] at hedits
        exact Or.inr ⟨Or.inr ⟨hold, Ne.symm hedits.1⟩, hedits.2⟩

/-! ### From the words that a dictionary starts from -/

/-- A dictionary that can be written to starts from words: from those that it is given, or from
those of a snapshot. -/
inductive Seeded : Dictionary → List Word → Prop
  | given (name : Text) (groups : List Group) :
      Seeded (user name groups) (Headwords.wordsOfGroups groups)
  | restored {bytes : List UInt8} {d : Dictionary} {words : List Word}
      (decode : Snapshot.decode bytes = .ok d)
      (decodeWords : Snapshot.decodeWords bytes = .ok words) : Seeded d words

variable {words : List Word}

theorem Seeded.writable (h : d.Seeded words) : d.writable = true := by
  cases h with
  | given name groups => rfl
  | restored decode decodeWords =>
    rw [Snapshot.decode, decodeWords] at decode
    obtain rfl := Except.ok.inj decode
    rfl

theorem Seeded.words_eq (h : d.Seeded words) : d.words = Headwords.ofWords words := by
  cases h with
  | given name groups => rfl
  | restored decode decodeWords =>
    rw [Snapshot.decode, decodeWords] at decode
    obtain rfl := Except.ok.inj decode
    rfl

theorem Seeded.tidy (h : d.Seeded words) : d.words.Tidy := by
  rw [h.words_eq]
  exact Headwords.tidy_ofWords words

/-- The entries that words and edits leave under a reading: those registered, the last first, and
behind them those of the words, of each surface the first, that no edit is about. -/
def remembered (words : List Word) (edits : List Edit) (reading : Text) : List Entry :=
  Edit.registered reading edits
    ++ (Entry.distinct (Headwords.entriesOf words reading)).filter (Edit.untouched reading edits)

/-- What holds of a dictionary that has started from words, after edits. -/
structure Remembers (d : Dictionary) (words : List Word) (edits : List Edit) : Prop where
  tidy : d.words.Tidy
  lookup : ∀ reading, d.lookup reading = remembered words edits reading
  /-- A surface is there that was registered or there to begin with, and not purged since. -/
  lists : ∀ reading surface, reading ≠ [] → surface ≠ [] →
    (Entry.lists (d.lookup reading) surface = true ↔
      (∃ before entry later, edits = before ++ .register reading entry :: later ∧
          entry.surface = surface ∧ .purge reading surface ∉ later) ∨
        (∃ word ∈ words, word.1 = reading ∧ word.2.surface = surface) ∧
          .purge reading surface ∉ edits)
  /-- A registration tells whether the surface is new. -/
  register : ∀ reading entry, d.register reading entry =
    if reading = [] then .error .emptyReading
    else if entry.surface = [] then .error .emptySurface
    else .ok (!Entry.lists (d.lookup reading) entry.surface, d.edited (.register reading entry))
  /-- A registration that is refused changes nothing. -/
  refused : ∀ reading entry, reading = [] ∨ entry.surface = [] →
    d.edited (.register reading entry) = d
  /-- A purge tells whether the surface was there. -/
  purge : ∀ reading surface, d.purge reading surface =
    .ok (Entry.lists (d.lookup reading) surface, d.edited (.purge reading surface))

theorem lists_entriesOf {reading surface : Text} (hreading : reading ≠ [])
    (hsurface : surface ≠ []) :
    Entry.lists (Headwords.entriesOf words reading) surface = true ↔
      ∃ word ∈ words, word.1 = reading ∧ word.2.surface = surface := by
  rw [Entry.lists_iff, Headwords.entriesOf]
  simp only [List.mem_map, List.mem_filterMap]
  constructor
  · rintro ⟨entry, ⟨word, hword, he⟩, rfl⟩
    split at he
    · rename_i hall
      obtain rfl := Option.some.inj he
      exact ⟨word, hword, hall.1, rfl⟩
    · cases he
  · rintro ⟨word, hword, rfl, rfl⟩
    exact ⟨word.2, ⟨word, hword, if_pos ⟨rfl, hreading, hsurface⟩⟩, rfl⟩

/-- **A dictionary remembers the words that it started from and the edits since.** -/
theorem Seeded.remembers (h : d.Seeded words) (edits : List Edit) :
    (d.editedBy edits).Remembers words edits := by
  obtain ⟨-, hwritable, htidy⟩ := editedBy_invariant h.writable h.tidy edits
  have hseeds : ∀ reading, d.lookup reading
      = Entry.distinct (Headwords.entriesOf words reading) := by
    intro reading
    rw [lookup, h.words_eq, Headwords.lookup_ofWords]
  constructor
  case tidy => exact htidy
  case lookup =>
    intro reading
    rw [lookup_editedBy h.writable h.tidy, hseeds, remembered]
  case lists =>
    intro reading surface hreading hsurface
    rw [lists_editedBy h.writable h.tidy, hseeds, Entry.lists_distinct,
      lists_entriesOf hreading hsurface]
    simp only [hreading, hsurface, ne_eq, not_false_eq_true, true_and]
  case register =>
    intro reading entry
    rw [register_eq hwritable, edited_register hwritable]
    by_cases hreading : reading = []
    · rw [if_pos hreading, if_pos hreading]
    · by_cases hsurface : entry.surface = []
      · rw [if_neg hreading, if_neg hreading, if_pos hsurface, if_pos hsurface]
      · rw [if_neg (not_or.mpr ⟨hreading, hsurface⟩)]
  case refused =>
    intro reading entry hempty
    rw [edited_register hwritable, if_pos hempty]
  case purge =>
    intro reading surface
    rw [purge_eq hwritable, edited_purge hwritable]

end Dictionary

end KanaKanji

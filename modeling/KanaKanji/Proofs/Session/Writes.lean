/-
What keys write to the dictionaries.

A key writes when it commits a candidate or purges one, and when it confirms a registration with
a word.  `Situation.Writes` lists these ways, each with what is written (`Write`).

* `Situation.shelf_handle_of_writes`: such a key makes just that write, at any depth;
* `Situation.exists_writes`: no other key changes a dictionary;
* `Situation.lookupAt_written`, `getElem?_written`, `lists_registered`: what a write leaves alone.
-/
import KanaKanji.Proofs.Dictionary.Writing
import KanaKanji.Proofs.Session.Shown

namespace KanaKanji

namespace Keymap

variable {keymap : Keymap} {commands : List Command} {command : Command} {event : KeyEvent}

/-- The first of some commands that the event is bound to. -/
def first? (keymap : Keymap) (commands : List Command) (event : KeyEvent) : Option Command :=
  commands.find? fun command => keymap.binds command event

theorem binds_of_first? (h : keymap.first? commands event = some command) :
    keymap.binds command event = true := by
  unfold first? at h
  simpa using List.find?_some h

theorem not_binds_of_first? (h : keymap.first? commands event = none)
    (hcommand : command ∈ commands) : keymap.binds command event = false := by
  unfold first? at h
  simpa using List.find?_eq_none.mp h command hcommand

end Keymap

/-- The segment shows candidates, and looks at these commands one after the other. -/
inductive Segment.Shows : Segment → Selection → List Command → Prop
  | selecting (selection : Selection) : Shows (.selecting selection) selection
      [.cancel, .nextCandidate, .previousCandidate, .purgeCandidate, .registerWord, .delete,
        .commit]
  | completing (selection : Selection) : Shows (.completing selection) selection
      [.cancel, .complete, .previousCompletion, .convert, .delete, .purgeCandidate, .commit]

namespace Segment

variable {part : Segment} {selection other : Selection} {commands others : List Command}

theorem Shows.innermost (h : part.Shows selection commands) : part.innermost = part := by
  cases h <;> rfl

/-- There is only one that is shown. -/
theorem Shows.unique (h : part.Shows selection commands) (ho : part.Shows other others) :
    other = selection ∧ others = commands := by
  cases h <;> cases ho <;> exact ⟨rfl, rfl⟩

end Segment

/-! ### Writes -/

/-- What a key writes to the dictionaries. -/
inductive Write
  /-- A candidate goes to the front of its headword. -/
  | learn (candidate : Candidate)
  /-- The surface of a candidate goes from its headword. -/
  | purge (candidate : Candidate)
  deriving DecidableEq, Repr

/-- The reading that is written to. -/
def Write.reading : Write → Text
  | learn candidate => candidate.key.headword
  | purge candidate => candidate.key.headword

namespace Situation

variable {s : Situation} {event : KeyEvent}

/-- The shelf after a write. -/
def written (s : Situation) : Write → Shelf
  | .learn candidate => s.registered candidate.key.headword candidate.entry
  | .purge candidate =>
    (s.shelf.purge s.layers candidate.key.headword candidate.entry.surface).2

/-- The key makes the segment itself, not one inside it, write to the dictionaries. -/
inductive Writes (s : Situation) (event : KeyEvent) : Segment → Write → Prop
  | commit {part : Segment} {selection : Selection} {commands : List Command}
      (shown : part.Shows selection commands)
      (key : s.settings.keymap.first? commands event = some .commit) :
      Writes s event part (.learn selection.current)
  | type {part : Segment} {selection : Selection} {commands : List Command}
      (shown : part.Shows selection commands)
      (free : s.settings.keymap.first? commands event = none)
      (printable : event.printable ≠ none) :
      Writes s event part (.learn selection.current)
  | purge {part : Segment} {selection : Selection} {commands : List Command}
      (shown : part.Shows selection commands)
      (key : s.settings.keymap.first? commands event = some .purgeCandidate) :
      Writes s event part (.purge selection.current)
  | confirm {key : ConversionKey} {origin : Origin} {text tail : Text}
      (command : s.settings.keymap.first? [.cancel, .commit] event = some .commit)
      (stays : s.leavesLatin event = false)
      (word : text ++ s.flushed tail ≠ []) :
      Writes s event (.registering key origin text (.direct tail))
        (.learn ⟨key, { surface := text ++ s.flushed tail }⟩)

/-! ### Keys while candidates are shown -/

section

variable {part : Segment} {selection : Selection} {commands : List Command}
  (shown : part.Shows selection commands)
include shown

theorem handle_of_commit (key : s.settings.keymap.first? commands event = some .commit) :
    s.handle part event = s.commitCurrent selection := by
  cases shown <;> simp_all [Keymap.first?, handle, select, complete, binds]

theorem handle_of_purge
    (key : s.settings.keymap.first? commands event = some .purgeCandidate) :
    s.handle part event = s.purgeCurrent selection := by
  cases shown <;> simp_all [Keymap.first?, handle, select, complete, binds]

/-- A key without a command commits if it has a character. -/
theorem handle_of_free (free : s.settings.keymap.first? commands event = none) :
    s.handle part event = s.commitAndType part selection event := by
  cases shown <;> simp_all [Keymap.first?, handle, select, complete, binds]

/-- The other commands write nothing. -/
theorem shelf_handle_of_other {command : Command}
    (key : s.settings.keymap.first? commands event = some command)
    (hcommit : command ≠ .commit) (hpurge : command ≠ .purgeCandidate) :
    (s.handle part event).shelf = s.shelf := by
  have hbound : s.binds command event = true := Keymap.binds_of_first? key
  cases shown with
  | selecting =>
    unfold handle select
    dsimp only
    split_ifs <;> first | rfl | simp_all [Keymap.first?, binds]
  | completing =>
    unfold handle complete
    dsimp only
    split_ifs <;> first | rfl | simp_all [Keymap.first?, binds]

end

/-! ### The keys that write -/

variable {segment part : Segment} {w : Write} {depth : Nat}

theorem Writes.cancel_eq_false (h : s.Writes event part w) : s.binds .cancel event = false := by
  have hfirst : ∀ {rest : List Command} {command : Command}, command ≠ .cancel →
      s.settings.keymap.first? (.cancel :: rest) event = some command →
      s.binds .cancel event = false := by
    intro rest command hne hkey
    cases hc : s.binds .cancel event with
    | false => rfl
    | true =>
      have hcancel : s.settings.keymap.first? (.cancel :: rest) event = some .cancel :=
        List.find?_cons_of_pos hc
      exact absurd (Option.some.inj (hkey.symm.trans hcancel)) hne
  cases h with
  | commit shown key => cases shown <;> exact hfirst (by decide) key
  | type shown free printable =>
    cases shown <;> exact Keymap.not_binds_of_first? free List.mem_cons_self
  | purge shown key => cases shown <;> exact hfirst (by decide) key
  | confirm command stays word => exact hfirst (by decide) command

/-- No registration around the segment takes the key. -/
theorem Writes.passesTo (h : (s.deeper depth).Writes event part w) : s.PassesTo part event := by
  refine ⟨h.cancel_eq_false, ?_⟩
  cases h with
  | commit shown key => cases shown <;> trivial
  | type shown free printable => cases shown <;> trivial
  | purge shown key => cases shown <;> trivial
  | confirm command stays word => trivial

/-- A key that confirms a registration with a word. -/
theorem registrationCommand?_of_confirm {key : ConversionKey} {origin : Origin}
    {text tail : Text} (command : s.settings.keymap.first? [.cancel, .commit] event = some .commit)
    (stays : s.leavesLatin event = false) :
    s.registrationCommand? key origin text tail event
      = some (s.confirm key origin (text ++ s.flushed tail)) := by
  have hcommit : s.binds .commit event = true := Keymap.binds_of_first? command
  rw [registrationCommand?, hcommit, stays]
  rfl

/-- A key that writes makes just its write. -/
theorem shelf_handle_part (h : s.Writes event part w) :
    (s.handle part event).shelf = s.written w := by
  have hcancel := h.cancel_eq_false
  cases h with
  | commit shown key =>
    rw [handle_of_commit shown key]
    rfl
  | @type part selection commands shown free printable =>
    obtain ⟨c, hc⟩ := Option.ne_none_iff_exists'.mp printable
    rw [handle_of_free shown free, commitAndType, hc]
    exact (types_direct { s with shelf := (s.commitCurrent selection).shelf } [] event).shelf
  | purge shown key =>
    rw [handle_of_purge shown key]
    rfl
  | @confirm key origin text tail command stays word =>
    have hword : ¬ (text ++ s.flushed tail).isEmpty = true := by simpa using word
    rw [handle, hcancel, if_neg Bool.false_ne_true]
    dsimp only
    rw [registrationCommand?_of_confirm command stays]
    dsimp only
    rw [confirm, if_neg hword]
    rfl

/-- **A key that makes a segment write makes just that write**, at any depth. -/
theorem shelf_handle_of_writes (hpart : segment.within? depth = some part)
    (h : (s.deeper depth).Writes event part w) : (s.handle segment event).shelf = s.written w := by
  rw [(handle_of_within? hpart h.passesTo).1, shelf_handle_part h]
  cases w <;> rfl

theorem writes_of_shows {selection : Selection} {commands : List Command}
    (shown : part.Shows selection commands) :
    (s.handle part event).shelf = s.shelf ∨ ∃ w, s.Writes event part w := by
  cases key : s.settings.keymap.first? commands event with
  | none =>
    cases hp : event.printable with
    | none =>
      left
      rw [handle_of_free shown key, commitAndType, hp]
      rfl
    | some c =>
      exact Or.inr ⟨_, .type shown key (by rw [hp]; exact Option.some_ne_none c)⟩
  | some command =>
    by_cases hcommit : command = .commit
    · exact Or.inr ⟨_, .commit shown (hcommit ▸ key)⟩
    · by_cases hpurge : command = .purgeCandidate
      · exact Or.inr ⟨_, .purge shown (hpurge ▸ key)⟩
      · exact Or.inl (shelf_handle_of_other shown key hcommit hpurge)

theorem writes_of_registrationCommand? {key : ConversionKey} {origin : Origin}
    {text tail : Text} {outcome : Outcome} (hcancel : s.binds .cancel event = false)
    (h : s.registrationCommand? key origin text tail event = some outcome) :
    outcome.shelf = s.shelf ∨
      ∃ w, s.Writes event (.registering key origin text (.direct tail)) w := by
  unfold registrationCommand? at h
  split_ifs at h with hcommit hdelete
  · obtain rfl := Option.some.inj h
    obtain ⟨hbound, hstays⟩ := Bool.and_eq_true_iff.mp hcommit
    by_cases hword : text ++ s.flushed tail = []
    · left
      rw [hword]
      rfl
    · have hkey : s.settings.keymap.first? [.cancel, .commit] event = some .commit := by
        have hc : s.settings.keymap.binds .cancel event = false := hcancel
        have hb : s.settings.keymap.binds .commit event = true := hbound
        simp [Keymap.first?, hc, hb]
      exact Or.inr ⟨_, .confirm hkey (by simpa using hstays) hword⟩
  · obtain rfl := Option.some.inj h
    exact Or.inl rfl

/-- **No other key changes a dictionary.** -/
theorem exists_writes (s : Situation) (segment : Segment) (event : KeyEvent) :
    (s.handle segment event).shelf = s.shelf ∨
      ∃ depth part w, segment.within? depth = some part ∧
        (s.deeper depth).Writes event part w := by
  have htop : ∀ {s : Situation} {segment : Segment}, (∃ w, s.Writes event segment w) →
      ∃ depth part w, segment.within? depth = some part ∧
        (s.deeper depth).Writes event part w :=
    fun ⟨w, h⟩ => ⟨0, _, w, rfl, h⟩
  refine handle_induction (P := fun s segment outcome => outcome.shelf = s.shelf ∨
    ∃ depth part w, segment.within? depth = some part ∧ (s.deeper depth).Writes event part w)
    event ?cancelled ?direct ?composing ?abbreviation ?selecting ?completing ?command ?inside
    s segment
  case cancelled =>
    intro s segment _ _
    exact Or.inl rfl
  case direct =>
    intro s tail
    exact Or.inl (types_direct s tail event).shelf
  case composing =>
    intro s b _
    exact Or.inl (types_compose s b event).shelf
  case abbreviation =>
    intro s letters _
    exact Or.inl (types_abbreviate s letters event).shelf
  case selecting =>
    intro s selection hcancel
    rw [← handle_selecting hcancel]
    exact (writes_of_shows (.selecting selection)).imp_right htop
  case completing =>
    intro s selection hcancel
    rw [← handle_completing hcancel]
    exact (writes_of_shows (.completing selection)).imp_right htop
  case command =>
    intro s key origin text tail outcome hcancel hcommand
    exact (writes_of_registrationCommand? hcancel hcommand).imp_right htop
  case inside =>
    intro s key origin text inner _ ih
    refine ih.imp_right ?_
    rintro ⟨depth, part, w, hpart, hwrites⟩
    rw [nested_deeper] at hwrites
    exact ⟨depth + 1, part, w, hpart, hwrites⟩

/-! ### What a write changes -/

theorem registered_eq_afterWrite (s : Situation) (reading : Text) (entry : Entry) :
    s.registered reading entry
      = s.shelf.afterWrite (s.shelf.register s.layers reading entry) := by
  unfold registered
  cases s.shelf.register s.layers reading entry <;> rfl

/-- A registration that is not refused is one in the first layer that can be written to. -/
theorem registered_cases (s : Situation) (reading : Text) (entry : Entry) :
    s.registered reading entry = s.shelf ∨
      ∃ place, s.shelf.writablePlace? s.layers = some place ∧
        Shelf.Registered s.shelf (s.registered reading entry) place reading entry := by
  unfold registered
  cases h : s.shelf.register s.layers reading entry with
  | error e => exact Or.inl rfl
  | ok result => exact Or.inr (Shelf.registered_of_register h)

/-- Only the reading of a write is touched. -/
theorem lookupAt_written (s : Situation) (w : Write) (place : Nat) {other : Text}
    (h : other ≠ w.reading) :
    (s.written w).lookupAt place other = s.shelf.lookupAt place other := by
  cases w with
  | learn candidate =>
    rcases s.registered_cases candidate.key.headword candidate.entry with
      hrefused | ⟨first, -, hregistered⟩
    · rw [written, hrefused]
    · exact hregistered.lookupAt_of_ne_reading h place
  | purge candidate =>
    rw [written, Shelf.lookupAt_purge, if_neg fun hr => h hr.2]

/-- What is learned goes to the first layer that can be written to. -/
theorem getElem?_registered {place : Nat} (h : s.shelf.writablePlace? s.layers ≠ some place)
    (reading : Text) (entry : Entry) : (s.registered reading entry)[place]? = s.shelf[place]? := by
  rcases s.registered_cases reading entry with hrefused | ⟨first, hfirst, hregistered⟩
  · rw [hrefused]
  · refine hregistered.elsewhere place ?_
    rintro rfl
    exact h hfirst

/-- Nothing is written to what cannot be written to, nor to the dictionaries of no layer. -/
theorem getElem?_written (w : Write) {place : Nat}
    (h : place ∉ s.layers ∨ s.shelf.isWritable place = false) :
    (s.written w)[place]? = s.shelf[place]? := by
  cases w with
  | learn candidate =>
    refine getElem?_registered (fun hfirst => ?_) _ _
    rcases h with hlayer | hread
    · exact hlayer (List.mem_of_find?_eq_some hfirst)
    · have hwritable : s.shelf.isWritable place = true := List.find?_some hfirst
      exact nomatch hread.symm.trans hwritable
  | purge candidate => exact Shelf.getElem?_purge_of_not_written _ _ h

/-- Learning loses no surface. -/
theorem lists_registered (s : Situation) {reading : Text} {entry : Entry} {place : Nat}
    {other surface : Text} (h : Entry.lists (s.shelf.lookupAt place other) surface = true) :
    Entry.lists ((s.registered reading entry).lookupAt place other) surface = true := by
  rcases s.registered_cases reading entry with hrefused | ⟨first, -, hregistered⟩
  · rw [hrefused]
    exact h
  · exact hregistered.lists_lookupAt h

end Situation

/-! ### Sessions -/

namespace Session

variable {session : Session} {event : KeyEvent}

/-- The key makes the session write: it is a press that makes a segment write, inside so many
registrations. -/
def Writes (session : Session) (event : KeyEvent) (depth : Nat) (w : Write) : Prop :=
  event.isRelease = false ∧ ∃ part, session.context.segment.within? depth = some part ∧
    (session.situation.deeper depth).Writes event part w

theorem shelf_press_of_writes {depth : Nat} {w : Write} (h : session.Writes event depth w) :
    (session.press event).shelf = session.situation.written w := by
  obtain ⟨hpress, part, hpart, hwrites⟩ := h
  rw [press_of_not_release session hpress]
  exact Situation.shelf_handle_of_writes hpart hwrites

theorem exists_writes (session : Session) (event : KeyEvent) :
    (session.press event).shelf = session.shelf ∨ ∃ depth w, session.Writes event depth w := by
  by_cases hrelease : event.isRelease = true
  · rw [press_of_release session hrelease]
    exact Or.inl rfl
  · have hpress : event.isRelease = false := by simpa using hrelease
    rw [press_of_not_release session hpress]
    refine (session.situation.exists_writes session.context.segment event).imp_right ?_
    rintro ⟨depth, part, w, hpart, hwrites⟩
    exact ⟨depth, w, hpress, part, hpart, hwrites⟩

/-- Where candidates are shown, the current one is learned or purged. -/
theorem Writes.of_shows {depth : Nat} {w : Write} (h : session.Writes event depth w)
    {selection : Selection} {commands : List Command}
    (shown : session.context.segment.innermost.Shows selection commands) :
    let given := session.context.settings.keymap.first? commands event
    w = .learn selection.current ∧ (given = some .commit ∨ given = none ∧ event.printable ≠ none) ∨
      w = .purge selection.current ∧ given = some .purgeCandidate := by
  obtain ⟨-, part, hpart, hwrites⟩ := h
  rw [Segment.innermost_of_within? hpart] at shown
  cases hwrites with
  | commit inside key =>
    rw [inside.innermost] at shown
    obtain ⟨rfl, rfl⟩ := shown.unique inside
    exact Or.inl ⟨rfl, Or.inl key⟩
  | type inside free printable =>
    rw [inside.innermost] at shown
    obtain ⟨rfl, rfl⟩ := shown.unique inside
    exact Or.inl ⟨rfl, Or.inr ⟨free, printable⟩⟩
  | purge inside key =>
    rw [inside.innermost] at shown
    obtain ⟨rfl, rfl⟩ := shown.unique inside
    exact Or.inr ⟨rfl, key⟩
  | confirm command stays word =>
    -- what is typed directly shows nothing
    exact nomatch shown

end Session

end KanaKanji

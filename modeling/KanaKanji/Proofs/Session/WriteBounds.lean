/-
How far keys can change the dictionaries.

A key touches one reading at most and leaves alone what cannot be written to; it writes only where
a candidate is committed or purged, or a registration is confirmed; and no surface is lost but by
purging it.

* `Session.Framed`, `Session.framed_press`: the bounds that every key keeps to;
* `Session.offered_run`: nothing that is offered is lost in a run in which nothing is purged.
-/
import KanaKanji.Proofs.Session.Unconsumed
import KanaKanji.Proofs.Session.Writes

namespace KanaKanji

namespace Session

variable {session : Session} {event : KeyEvent}

/-- The key confirms the innermost registration, and there is a word. -/
def Confirms (session : Session) (event : KeyEvent) : Prop :=
  ∃ depth key origin text tail,
    session.context.segment.within? depth = some (.registering key origin text (.direct tail)) ∧
    session.context.settings.keymap.first? [.cancel, .commit] event = some .commit ∧
    session.situation.leavesLatin event = false ∧ text ++ session.situation.flushed tail ≠ []

/-- The key purges the candidate that is shown. -/
def Purges (session : Session) (event : KeyEvent) : Prop :=
  event.isRelease = false ∧ ∃ selection commands,
    session.context.segment.innermost.Shows selection commands ∧
    session.context.settings.keymap.first? commands event = some .purgeCandidate

/-- A key that is not bound to purging does not purge. -/
theorem not_purges_of_not_bound
    (h : session.context.settings.keymap.binds .purgeCandidate event = false) :
    ¬ session.Purges event := by
  rintro ⟨-, selection, commands, -, key⟩
  exact nomatch h.symm.trans (Keymap.binds_of_first? key)

/-- Only a key that purges makes the session purge. -/
theorem Writes.purges {depth : Nat} {candidate : Candidate}
    (h : session.Writes event depth (.purge candidate)) : session.Purges event := by
  obtain ⟨hpress, part, hpart, hwrites⟩ := h
  cases hwrites with
  | @purge part selection commands shown key =>
    refine ⟨hpress, selection, commands, ?_, key⟩
    rwa [Segment.innermost_of_within? hpart, shown.innermost]

/-- Where no candidates are shown, only a confirmed registration writes. -/
theorem shelf_press_of_not_shown
    (hselection : session.context.segment.innermost.mode ≠ .candidateSelection)
    (hcompletion : session.context.segment.innermost.mode ≠ .completion)
    (hconfirm : ¬ session.Confirms event) : (session.press event).shelf = session.shelf := by
  rcases session.exists_writes event with hsame | ⟨depth, w, -, part, hpart, hwrites⟩
  · exact hsame
  exfalso
  have hshown : ∀ {selection commands}, ¬ part.Shows selection commands := by
    intro selection commands shown
    have hinnermost := (Segment.innermost_of_within? hpart).trans shown.innermost
    cases shown with
    | selecting => exact hselection (congrArg Segment.mode hinnermost)
    | completing => exact hcompletion (congrArg Segment.mode hinnermost)
  cases hwrites with
  | commit shown key => exact hshown shown
  | type shown free printable => exact hshown shown
  | purge shown key => exact hshown shown
  | confirm command stays word =>
    exact hconfirm ⟨depth, _, _, _, _, hpart, command, stays, word⟩

/-- A key that does not purge loses no surface. -/
theorem lists_press (hpurge : ¬ session.Purges event) {place : Nat} {reading surface : Text}
    (h : Entry.lists (session.shelf.lookupAt place reading) surface = true) :
    Entry.lists ((session.press event).shelf.lookupAt place reading) surface = true := by
  rcases session.exists_writes event with hsame | ⟨depth, w, hwrites⟩
  · rwa [hsame]
  rw [shelf_press_of_writes hwrites]
  cases w with
  | learn candidate => exact Situation.lists_registered session.situation h
  | purge candidate => exact absurd hwrites.purges hpurge

/-- A key that is not consumed writes nothing. -/
theorem shelf_press_of_not_consumed (h : session.consumes event = false) :
    (session.press event).shelf = session.shelf := by
  by_cases hinnermost : ∃ b, session.context.segment.innermost = .composing b
  · obtain ⟨b, hb⟩ := hinnermost
    -- a reading that is composed shows nothing and confirms nothing
    refine shelf_press_of_not_shown (by rw [hb]; exact nofun) (by rw [hb]; exact nofun) ?_
    rintro ⟨depth, key, origin, text, tail, hpart, -⟩
    have hdirect := Segment.innermost_of_within? hpart
    exact nomatch hb.symm.trans hdirect
  · rw [press_of_not_consumed h fun b hb => hinnermost ⟨b, hb⟩]

section

variable {selection : Selection} {commands : List Command}
  (shown : session.context.segment.innermost.Shows selection commands)
include shown

/-- Of the commands that candidates know only two write. -/
theorem shelf_press_of_other {command : Command}
    (key : session.context.settings.keymap.first? commands event = some command)
    (hcommit : command ≠ .commit) (hpurge : command ≠ .purgeCandidate) :
    (session.press event).shelf = session.shelf := by
  rcases session.exists_writes event with hsame | ⟨depth, w, hwrites⟩
  · exact hsame
  exfalso
  rcases hwrites.of_shows shown with ⟨-, hkey | ⟨hkey, -⟩⟩ | ⟨-, hkey⟩
  · exact hcommit (Option.some.inj (key.symm.trans hkey))
  · exact nomatch key.symm.trans hkey
  · exact hpurge (Option.some.inj (key.symm.trans hkey))

theorem shelf_press_of_commit (hpress : event.isRelease = false)
    (key : session.context.settings.keymap.first? commands event = some .commit ∨
      session.context.settings.keymap.first? commands event = none ∧ event.printable ≠ none) :
    (session.press event).shelf = session.situation.registered
      selection.current.key.headword selection.current.entry := by
  obtain ⟨depth, hpart⟩ := session.context.segment.exists_within?_innermost
  rcases key with key | ⟨free, printable⟩
  · exact shelf_press_of_writes (w := .learn _) ⟨hpress, _, hpart, .commit shown key⟩
  · exact shelf_press_of_writes (w := .learn _) ⟨hpress, _, hpart, .type shown free printable⟩

theorem shelf_press_of_purge (hpress : event.isRelease = false)
    (key : session.context.settings.keymap.first? commands event = some .purgeCandidate) :
    (session.press event).shelf = (session.shelf.purge session.context.layers
      selection.current.key.headword selection.current.entry.surface).2 := by
  obtain ⟨depth, hpart⟩ := session.context.segment.exists_within?_innermost
  exact shelf_press_of_writes (w := .purge _) ⟨hpress, _, hpart, .purge shown key⟩

end

/-- The bounds within which a key changes the dictionaries. -/
structure Framed (session : Session) (event : KeyEvent) : Prop where
  /-- The entries of all readings but one stay as they are, at all places. -/
  reading : ∃ reading, ∀ place other, other ≠ reading →
    (session.press event).shelf.lookupAt place other = session.shelf.lookupAt place other
  /-- What cannot be written to stays as it is, and so do the dictionaries of no layer. -/
  readOnly : ∀ place, place ∉ session.context.layers ∨ session.shelf.isWritable place = false →
    (session.press event).shelf[place]? = session.shelf[place]?
  /-- Where no candidates are shown, only a confirmed registration writes. -/
  notShown : session.context.segment.innermost.mode ≠ .candidateSelection →
    session.context.segment.innermost.mode ≠ .completion → ¬ session.Confirms event →
    (session.press event).shelf = session.shelf
  unconsumed : session.consumes event = false → (session.press event).shelf = session.shelf
  /-- Of the commands that candidates know only committing and purging write. -/
  other : ∀ selection commands, session.context.segment.innermost.Shows selection commands →
    ∀ command, session.context.settings.keymap.first? commands event = some command →
    command ≠ .commit → command ≠ .purgeCandidate → (session.press event).shelf = session.shelf
  /-- A commit, by its key or by a printable one, is one registration in the first layer that
  can be written to. -/
  commit : ∀ selection commands, session.context.segment.innermost.Shows selection commands →
    event.isRelease = false →
    session.context.settings.keymap.first? commands event = some .commit ∨
      session.context.settings.keymap.first? commands event = none ∧ event.printable ≠ none →
    (session.press event).shelf = session.shelf.afterWrite (session.shelf.register
        session.context.layers selection.current.key.headword selection.current.entry) ∧
      ∀ place, session.shelf.writablePlace? session.context.layers ≠ some place →
        (session.press event).shelf[place]? = session.shelf[place]?
  /-- A purge takes the surface from the layers that can be written to. -/
  purge : ∀ selection commands, session.context.segment.innermost.Shows selection commands →
    event.isRelease = false →
    session.context.settings.keymap.first? commands event = some .purgeCandidate →
    (session.press event).shelf = (session.shelf.purge session.context.layers
      selection.current.key.headword selection.current.entry.surface).2
  /-- Only a purge loses a surface. -/
  lists : ¬ session.Purges event → ∀ place reading surface,
    Entry.lists (session.shelf.lookupAt place reading) surface = true →
    Entry.lists ((session.press event).shelf.lookupAt place reading) surface = true

theorem framed_press (session : Session) (event : KeyEvent) : session.Framed event where
  reading := by
    rcases session.exists_writes event with hsame | ⟨depth, w, hwrites⟩
    · exact ⟨[], fun place other _ => by rw [hsame]⟩
    · refine ⟨w.reading, fun place other hother => ?_⟩
      rw [shelf_press_of_writes hwrites]
      exact session.situation.lookupAt_written w place hother
  readOnly := by
    intro place hplace
    rcases session.exists_writes event with hsame | ⟨depth, w, hwrites⟩
    · rw [hsame]
    · rw [shelf_press_of_writes hwrites]
      exact Situation.getElem?_written w hplace
  notShown := shelf_press_of_not_shown
  unconsumed := shelf_press_of_not_consumed
  other := fun _ _ shown _ => shelf_press_of_other shown
  commit := by
    intro selection commands shown hpress key
    rw [shelf_press_of_commit shown hpress key]
    exact ⟨Situation.registered_eq_afterWrite .., fun place hplace =>
      Situation.getElem?_registered hplace _ _⟩
  purge := fun _ _ shown => shelf_press_of_purge shown
  lists := fun hpurge _ _ _ => lists_press hpurge

/-! ### Runs -/

/-- The request purges, by a key or in the name of the host. -/
def PurgesBy (session : Session) : Request → Prop
  | .press event => session.Purges event
  | .purge _ _ => True
  | .purgeAt _ _ _ => True
  | _ => False

/-- None of the requests purges. -/
def PurgesNothing (session : Session) : List Request → Prop
  | [] => True
  | request :: requests =>
    ¬ session.PurgesBy request ∧ (session.serve request).PurgesNothing requests

/-- A request that does not purge loses no surface. -/
theorem lists_serve {request : Request} (hpurge : ¬ session.PurgesBy request) {place : Nat}
    {reading surface : Text}
    (h : Entry.lists (session.shelf.lookupAt place reading) surface = true) :
    Entry.lists ((session.serve request).shelf.lookupAt place reading) surface = true := by
  cases request with
  | press event => exact lists_press hpurge h
  | register other entry => exact Situation.lists_registered session.situation h
  | registerAt target other entry =>
    show Entry.lists (Shelf.lookupAt
      (session.shelf.afterWrite (session.shelf.registerAt target other entry)) place reading)
      surface = true
    cases hwrite : session.shelf.registerAt target other entry with
    | error e => exact h
    | ok result => exact (Shelf.registered_of_registerAt hwrite).lists_lookupAt h
  | purge other surface => exact absurd trivial hpurge
  | purgeAt target other surface => exact absurd trivial hpurge
  | _ => exact h

/-- **In a run without purging no surface is lost**, in any dictionary. -/
theorem lists_run {session : Session} {requests : List Request}
    (hpurge : session.PurgesNothing requests) {place : Nat} {reading surface : Text}
    (h : Entry.lists (session.shelf.lookupAt place reading) surface = true) :
    Entry.lists ((session.run requests).shelf.lookupAt place reading) surface = true := by
  induction requests generalizing session with
  | nil => exact h
  | cons request requests ih => exact ih hpurge.2 (lists_serve hpurge.1 h)

/-- What the dictionaries go on listing the layers go on offering. -/
theorem offered_run {session : Session} {requests : List Request}
    (hpurge : session.PurgesNothing requests) (layers : Layers) (reading surface : Text)
    (h : Entry.lists ((session.shelf.select layers).lookup reading) surface = true) :
    Entry.lists (((session.run requests).shelf.select layers).lookup reading) surface = true := by
  rw [Shelf.lists_select, List.any_eq_true] at h ⊢
  obtain ⟨place, hplace, hlists⟩ := h
  exact ⟨place, hplace, lists_run hpurge hlists⟩

/-- **Only commits, purges and confirmed registrations write.**  Every key keeps to its bounds,
and so nothing that is offered for a reading is lost in a run without purging. -/
theorem keys_write (session : Session) :
    (∀ event, session.Framed event) ∧
      ∀ requests, session.PurgesNothing requests → ∀ layers reading surface,
        Entry.lists ((session.shelf.select layers).lookup reading) surface = true →
        Entry.lists (((session.run requests).shelf.select layers).lookup reading) surface
          = true :=
  ⟨session.framed_press, fun _ => offered_run⟩

/-- 愛 and 藍 are shown for あい, from a dictionary that stays as it is and before one that can be
written to. -/
def shownAi : Session :=
  (start Settings.builtin RomajiTable.builtin [0, 1]
    [Dictionary.fixed Dictionary.systemName
        [("あい".toList, [{ surface := "愛".toList }, { surface := "藍".toList }])],
      Dictionary.user Dictionary.userName []]).pressAll ("Ai ".toList.map KeyEvent.ofChar)

/-- The second one is committed: it is written to the second dictionary only, and the first goes
on being offered. -/
theorem keys_write_ai :
    let keys : List Request := [.press (KeyEvent.ofChar ' '), .press ⟨.named .enter, .none⟩]
    let after := shownAi.run keys
    let offers := fun session : Session =>
      Entry.lists ((session.shelf.select [0, 1]).lookup "あい".toList) "愛".toList
    shownAi.PurgesNothing keys ∧ offers shownAi = true ∧ offers after = true ∧
      after.shelf.lookupAt 1 "あい".toList = [{ surface := "藍".toList }] ∧
      after.shelf[0]? = shownAi.shelf[0]? := by
  intro keys after offers
  have hfirst : shownAi.context.settings.keymap.binds .purgeCandidate (KeyEvent.ofChar ' ')
      = false := by decide +kernel
  have hsecond : (shownAi.press (KeyEvent.ofChar ' ')).context.settings.keymap.binds
      .purgeCandidate ⟨.named .enter, .none⟩ = false := by decide +kernel
  have hpurge : shownAi.PurgesNothing keys :=
    ⟨not_purges_of_not_bound hfirst, not_purges_of_not_bound hsecond, trivial⟩
  have hoffers : offers shownAi = true := by decide +kernel
  obtain ⟨hframed, hkept⟩ := keys_write shownAi
  obtain ⟨hframed', -⟩ := keys_write (shownAi.press (KeyEvent.ofChar ' '))
  have hread : shownAi.shelf.isWritable 0 = false ∧
      (shownAi.press (KeyEvent.ofChar ' ')).shelf.isWritable 0 = false := by
    decide +kernel
  refine ⟨hpurge, hoffers, hkept keys hpurge [0, 1] _ _ hoffers, by decide +kernel, ?_⟩
  exact ((hframed' _).readOnly 0 (Or.inr hread.2)).trans
    ((hframed _).readOnly 0 (Or.inr hread.1))

end Session

end KanaKanji

/-
Completions and the readings they come from.

A completion carries the reading that it was found under, but as a key that is converted, in which
a number is no longer what was listed but a placeholder.  So converting, committing and purging a
completion concern its reading just when that has no digit.

* `Session.found_of_completing`: while the dictionaries stay as they are, what is shown is what
  completes the reading now;
* `Layered.listedIn_of_mem_completions`: such a candidate is an entry of the reading it carries;
* `Session.completed_reading`: what converting, committing and purging it come to.
-/
import KanaKanji.Proofs.Session.Learning

namespace KanaKanji

/-! ### What a completion is -/

/-- The candidate is an entry of the reading that its key carries, and it is looked up by that
reading just when there is no digit in it. -/
structure Candidate.ListedIn (candidate : Candidate) (layers : Layered) : Prop where
  key : candidate.key = { yomi := candidate.key.yomi }
  entry : candidate.entry ∈ layers.lookup candidate.key.yomi
  headword : candidate.key.headword = candidate.key.yomi ↔
    ∀ c ∈ candidate.key.yomi, c.isDigit = false

/-- A completion is listed under the reading that it carries. -/
theorem Layered.listedIn_of_mem_completions {layers : Layered} {stem : Text} {limit : Nat}
    {candidate : Candidate} (h : candidate ∈ layers.completions stem limit) :
    candidate.ListedIn layers := by
  obtain ⟨-, hokuri, -⟩ := mem_completions h
  obtain ⟨hkey, -, hentry⟩ := entry_mem_lookup h
  exact ⟨hkey, hentry, ConversionKey.headword_eq_yomi_iff hokuri⟩

theorem Layered.yomi_ne_nil_of_mem_completions {layers : Layered} {stem : Text} {limit : Nat}
    {candidate : Candidate} (h : candidate ∈ layers.completions stem limit) :
    candidate.key.yomi ≠ [] := by
  obtain ⟨hstem, -, -, rest, hrest⟩ := mem_completions h
  rw [← hrest]
  exact List.append_ne_nil_of_left_ne_nil hstem rest

/-! ### Converting a completion -/

namespace Situation

variable {s : Situation} {event : KeyEvent} {selection : Selection}

theorem found_congr {t : Situation} (hsettings : s.settings = t.settings)
    (hlayers : s.layers = t.layers) (hshelf : s.shelf = t.shelf) (lookup : Lookup) :
    s.found lookup = t.found lookup := by
  have hdictionaries : s.dictionaries = t.dictionaries := by
    rw [dictionaries, dictionaries, hlayers, hshelf]
  cases lookup with
  | conversion key => rw [found, found, hdictionaries]
  | completion yomi => rw [found, found, hdictionaries, hsettings]

theorem handle_completing_of_convert
    (h : s.settings.keymap.Gives [.cancel, .complete, .previousCompletion] .convert event) :
    s.handle (.completing selection) event
      = s.moves (s.conversion selection.current.key selection.origin) := by
  have hcomplete : s.binds .complete event = false := h.free .complete (by decide)
  have hprevious : s.binds .previousCompletion event = false :=
    h.free .previousCompletion (by decide)
  have hconvert : s.binds .convert event = true := h.bound
  rw [handle_completing (h.free .cancel (by decide)), complete, hcomplete, hprevious,
    if_neg Bool.false_ne_true, if_neg Bool.false_ne_true, if_pos hconvert]

/-- What the dictionaries have for the headword of a key is shown when it is converted. -/
theorem conversion_of_mem {key : ConversionKey} {entry : Entry}
    (h : entry ∈ s.dictionaries.lookup key.headword) (origin : Origin) :
    ∃ shown, s.conversion key origin = .selecting shown ∧ shown.key = key ∧
      (⟨key, entry⟩ : Candidate) ∈ shown.candidates := by
  have hcandidate : (⟨key, entry⟩ : Candidate) ∈ s.dictionaries.candidates key :=
    List.mem_map_of_mem h
  obtain ⟨shown, hfirst⟩ :=
    Selection.exists_first? key origin (List.ne_nil_of_mem hcandidate)
  obtain ⟨hkey, -, hcandidates, -⟩ := Selection.first?_eq_some hfirst
  refine ⟨shown, ?_, hkey, hcandidates ▸ hcandidate⟩
  rw [conversion, hfirst]

end Situation

namespace Session

variable {session : Session} {event : KeyEvent} {depth : Nat} {selection : Selection}

/-! ### Completions that are still found -/

/-- The completions that the session shows are what the dictionaries have for the reading. -/
def Current (session : Session) : Prop :=
  ∀ selection, session.context.segment.innermost = .completing selection →
    ∃ yomi, selection.key = { yomi := yomi } ∧
      selection.candidates = session.situation.found (.completion yomi)

theorem current_of_not_completing (h : session.context.segment.innermost.mode ≠ .completion) :
    session.Current := by
  intro selection hselection
  exact absurd (congrArg Segment.mode hselection) h

theorem current_press (h : session.Current) (hshelf : (session.press event).shelf = session.shelf) :
    (session.press event).Current := by
  by_cases hrelease : event.isRelease = true
  · rw [press_of_release session hrelease]
    exact h
  have hpress : event.isRelease = false := by simpa using hrelease
  -- the dictionaries are the same, and so is what they have
  obtain ⟨hsettings, -, hlayers⟩ := serve_frame session (.press event)
  have hsame : ∀ lookup, session.situation.found lookup
      = (session.press event).situation.found lookup :=
    Situation.found_congr hsettings.symm hlayers.symm hshelf.symm
  intro selection hselection
  rcases session.situation.shown_handle session.context.segment event with hfinds | hkeeps
  · rw [press_of_not_release session hpress] at hselection ⊢
    have hshown : (session.situation.handle session.context.segment event).segment.selection?
        = some selection := by
      unfold Segment.selection?
      rw [hselection]
    obtain ⟨lookup, hchoosing, hkey, hcandidates⟩ := hfinds selection hshown
    cases lookup with
    | conversion key => exact nomatch hselection.symm.trans hchoosing
    | completion yomi => exact ⟨yomi, hkey, hcandidates⟩
  · rw [press_of_not_release session hpress] at hselection
    rw [hselection] at hkeeps
    obtain ⟨earlier, hearlier, hkey, hcandidates⟩ := hkeeps.of_completing
    obtain ⟨yomi, hyomi, hfound⟩ := h earlier hearlier
    exact ⟨yomi, hkey.trans hyomi, hcandidates.trans (hfound.trans (hsame _))⟩

theorem current_serve (h : session.Current) (request : Request)
    (hshelf : (session.serve request).shelf = session.shelf) :
    (session.serve request).Current := by
  have hwrite : ∀ shelf : Shelf, shelf = session.shelf →
      Current { session with shelf := shelf } := by
    rintro shelf rfl
    exact h
  cases request with
  | press event => exact current_press h hshelf
  | setMode mode => exact h
  | reset => exact current_of_not_completing nofun
  | poll => exact h
  | register reading entry => exact hwrite _ hshelf
  | purge reading surface => exact hwrite _ hshelf
  | registerAt place reading entry => exact hwrite _ hshelf
  | purgeAt place reading surface => exact hwrite _ hshelf

/-- **While the dictionaries stay as they are, completions are what they were**: what completes
the reading in these dictionaries. -/
theorem found_of_completing {opened : Session} {during : List Request}
    (hopened : opened.Current)
    (hsame : ∀ done, done <+: during → (opened.run done).shelf = opened.shelf) :
    (opened.run during).Current := by
  induction during generalizing opened with
  | nil => exact hopened
  | cons request during ih =>
    have hfirst : (opened.serve request).shelf = opened.shelf :=
      hsame [request] ⟨during, rfl⟩
    refine ih (current_serve hopened request hfirst) fun done hdone => ?_
    rw [hfirst]
    exact hsame (request :: done) (List.cons_prefix_cons.mpr ⟨rfl, hdone⟩)

/-! ### Converting, committing, purging -/

section

variable (hpart : session.context.segment.within? depth = some (.completing selection))
include hpart

/-- Converting a completion shows it again, where its headword is the reading that lists it. -/
theorem convert_completion {reading : Text}
    (hentry : selection.current.entry ∈ session.situation.dictionaries.lookup reading)
    (hheadword : selection.current.key.headword = reading)
    (hconvert : session.context.settings.keymap.Gives [.cancel, .complete, .previousCompletion]
      .convert event) :
    ∃ shown, (session.press event).context.segment.within? depth = some (.selecting shown) ∧
      shown.key = selection.current.key ∧ selection.current ∈ shown.candidates := by
  rw [← hheadword] at hentry
  obtain ⟨shown, hconversion, hkey, hmem⟩ := Situation.conversion_of_mem
    (s := session.situation.deeper depth) hentry selection.origin
  refine ⟨shown, ?_, hkey, hmem⟩
  rw [within?_press session hconvert.press (hconvert.free .cancel (by decide)) hpart nofun,
    Situation.handle_completing_of_convert hconvert]
  exact congrArg some hconversion

/-- Whatever a key does to a completion, of all readings it touches the headword only. -/
theorem lookupAt_press_of_completing {reading : Text}
    (hheadword : reading ≠ selection.current.key.headword) (event : KeyEvent) (place : Nat) :
    (session.press event).shelf.lookupAt place reading = session.shelf.lookupAt place reading := by
  rcases session.exists_writes event with hsame | ⟨within, w, hwrites⟩
  · rw [hsame]
  obtain ⟨commands, hshown⟩ :
      ∃ commands, session.context.segment.innermost.Shows selection commands := by
    rw [Segment.innermost_of_within? hpart]
    exact ⟨_, .completing selection⟩
  have hreading : w.reading = selection.current.key.headword := by
    rcases hwrites.of_shows hshown with ⟨rfl, -⟩ | ⟨rfl, -⟩
    · rfl
    · rfl
  rw [shelf_press_of_writes hwrites]
  exact session.situation.lookupAt_written w place (hreading ▸ hheadword)

end

/-- What is learned goes to the front of its headword, where a layer can be written to. -/
theorem lookupAt_of_learns {candidate : Candidate} {place : Nat}
    (hplace : session.shelf.writablePlace? session.context.layers = some place)
    (hheadword : candidate.key.headword ≠ []) (hsurface : candidate.entry.surface ≠ [])
    (hlearns : session.Writes event depth (.learn candidate)) :
    (session.press event).shelf.lookupAt place candidate.key.headword = candidate.entry ::
      Entry.without (session.shelf.lookupAt place candidate.key.headword)
        candidate.entry.surface := by
  obtain ⟨isNew, hregister⟩ := register_of_learns hplace hheadword hsurface hlearns
  obtain ⟨first, hfirst, hregistered⟩ := Shelf.registered_of_register hregister
  obtain rfl := Option.some.inj (hplace.symm.trans hfirst)
  exact hregistered.front

/-- What is purged is listed under its headword by no layer that can be written to. -/
theorem not_lists_of_purges {candidate : Candidate} {place : Nat}
    (hlayer : place ∈ session.context.layers) (hwritable : session.shelf.isWritable place = true)
    (hpurges : session.Writes event depth (.purge candidate)) :
    Entry.lists ((session.press event).shelf.lookupAt place candidate.key.headword)
      candidate.entry.surface = false := by
  have hpurged : place ∈ session.situation.layers ∧
      session.situation.shelf.isWritable place = true := ⟨hlayer, hwritable⟩
  rw [shelf_press_of_writes hpurges, Situation.written, Shelf.lookupAt_purge,
    if_pos ⟨hpurged, rfl⟩, Entry.lists_without, bne_self_eq_false, Bool.false_and]

/-- **A completion is an entry of the reading that it carries.**  It is looked up by that reading
just when there is no digit in it.  Then, while the dictionaries stay as they are, converting it
shows it again, committing it puts it in front of the reading, and purging it takes it from the
reading.  With a digit no key changes what is listed under the reading. -/
theorem completed_reading (opened : Session) (during : List Request) :
    (∀ (layers : Layered) (stem : Text) (limit : Nat),
      ∀ candidate ∈ layers.completions stem limit, candidate.ListedIn layers) ∧
    ∀ (depth : Nat) (selection : Selection),
      let session := opened.run during
      let candidate := selection.current
      let reading := candidate.key.yomi
      opened.shelf.Sound → opened.context.segment.innermost.mode ≠ .completion →
      (∀ done, done <+: during → (opened.run done).shelf = opened.shelf) →
      session.context.segment.within? depth = some (.completing selection) →
      candidate.ListedIn session.situation.dictionaries ∧
      ((∀ c ∈ reading, c.isDigit = false) →
        (∀ event, session.context.settings.keymap.Gives [.cancel, .complete, .previousCompletion]
            .convert event →
          ∃ shown, (session.press event).context.segment.within? depth = some (.selecting shown) ∧
            shown.key = candidate.key ∧ candidate ∈ shown.candidates) ∧
        (∀ event, session.Writes event depth (.learn candidate) →
          ∀ place, session.shelf.writablePlace? session.context.layers = some place →
            (session.press event).shelf.lookupAt place reading = candidate.entry ::
              Entry.without (session.shelf.lookupAt place reading) candidate.entry.surface) ∧
        ∀ event, session.Writes event depth (.purge candidate) →
          ∀ place ∈ session.context.layers, session.shelf.isWritable place = true →
            Entry.lists ((session.press event).shelf.lookupAt place reading)
              candidate.entry.surface = false) ∧
      ((∃ c ∈ reading, c.isDigit = true) → ∀ event place,
        (session.press event).shelf.lookupAt place reading
          = session.shelf.lookupAt place reading) := by
  refine ⟨fun _ _ _ _ => Layered.listedIn_of_mem_completions, ?_⟩
  intro depth selection session candidate reading hsound hopened hsame hpart
  have hcurrent : session.Current :=
    found_of_completing (current_of_not_completing hopened) hsame
  -- nothing was written, so that the candidate is still one of the completions
  obtain ⟨yomi, -, hfound⟩ := hcurrent selection (Segment.innermost_of_within? hpart)
  have hmem : candidate ∈ session.situation.found (.completion yomi) :=
    hfound ▸ selection.current_mem
  have hlisted : candidate.ListedIn session.situation.dictionaries :=
    Layered.listedIn_of_mem_completions hmem
  have hreading : reading ≠ [] := Layered.yomi_ne_nil_of_mem_completions hmem
  refine ⟨hlisted, fun hdigits => ?_, ?_⟩
  · have hsession : session.shelf.Sound := by
      rw [show session.shelf = opened.shelf from hsame during (List.prefix_refl during)]
      exact hsound
    have hplain : candidate.key.headword = reading := hlisted.headword.mpr hdigits
    refine ⟨fun event => convert_completion hpart hlisted.entry hplain, ?_, ?_⟩
    · intro event hlearns place hplace
      rw [← hplain]
      exact lookupAt_of_learns hplace (hplain ▸ hreading)
        (hsession.surface_of_mem_lookup hlisted.entry) hlearns
    · intro event hpurges place hlayer hwritable
      rw [← hplain]
      exact not_lists_of_purges hlayer hwritable hpurges
  · rintro ⟨c, hc, hdigit⟩
    -- keys concern the headword, and that is another reading
    refine lookupAt_press_of_completing hpart fun hplain => ?_
    exact nomatch (hlisted.headword.mp hplain.symm c hc).symm.trans hdigit

theorem shelf_press_of_composing {b : Buffer} (h : session.context.segment = .composing b)
    (event : KeyEvent) : (session.press event).shelf = session.shelf := by
  rcases session.exists_writes event with hsame | ⟨depth, w, -, part, hpart, hwrites⟩
  · exact hsame
  · rw [h] at hpart
    cases depth with
    | zero =>
      obtain rfl := Option.some.inj hpart
      cases hwrites with
      | commit shown => exact nomatch shown
      | type shown => exact nomatch shown
      | purge shown => exact nomatch shown
    | succ depth => exact nomatch hpart

/-- あい has been typed, and the dictionary lists あいす. -/
def typedAi : Session :=
  (start Settings.builtin RomajiTable.builtin [0] [Dictionary.user Dictionary.userName
    [("あいす".toList, ["氷菓", "愛す"].map fun surface => { surface := surface.toList })]]).run
    ("Ai".toList.map fun c => .press (KeyEvent.ofChar c))

/-- The completions of あい, the first one current. -/
def completedAi : Selection where
  key := { yomi := "あい".toList }
  origin := .kana
  candidates := ["氷菓", "愛す"].map fun surface =>
    ⟨{ yomi := "あいす".toList }, { surface := surface.toList }⟩
  index := 0
  index_lt := by decide

/-- あいす is completed from あい, and can be converted, committed and purged. -/
theorem completed_reading_ai :
    let tab : KeyEvent := ⟨.named .tab, .none⟩
    let session := typedAi.run [.press tab]
    let after := session.press ⟨.named .enter, .none⟩
    session.context.segment.within? 0 = some (.completing completedAi) ∧
      session.Writes ⟨.named .enter, .none⟩ 0 (.learn completedAi.current) ∧
      after.shelf.lookupAt 0 "あいす".toList = completedAi.current.entry ::
        Entry.without (session.shelf.lookupAt 0 "あいす".toList) "氷菓".toList ∧
      ∃ shown, (session.press (KeyEvent.ofChar ' ')).context.segment.within? 0
          = some (.selecting shown) ∧ completedAi.current ∈ shown.candidates := by
  intro tab session after
  have hsegment : typedAi.context.segment = .composing { kana := "あい".toList } := by
    decide +kernel
  have htab : (typedAi.press tab).shelf = typedAi.shelf :=
    shelf_press_of_composing hsegment tab
  have hsame : ∀ done, done <+: [.press tab] → (typedAi.run done).shelf = typedAi.shelf := by
    intro done hdone
    rcases List.prefix_cons_iff.mp hdone with rfl | ⟨rest, rfl, hrest⟩
    · rw [run_nil]
    · rw [List.prefix_nil.mp hrest, run_cons, run_nil]
      exact htab
  have hsound : typedAi.shelf.Sound := by
    refine (surfaced_run Settings.builtin RomajiTable.builtin [0] ?_ _).shelf
    intro d hd
    obtain rfl := List.mem_singleton.mp hd
    exact Dictionary.sound_user _ _
  have hopened : typedAi.context.segment.innermost.mode ≠ .completion := by
    rw [hsegment]
    exact nofun
  have hpart : session.context.segment.within? 0 = some (.completing completedAi) := by
    decide +kernel
  have hkey : session.context.settings.keymap.first? [.cancel, .complete, .previousCompletion,
      .convert, .delete, .purgeCandidate, .commit] ⟨.named .enter, .none⟩ = some .commit := by
    decide +kernel
  have hlearns : session.Writes ⟨.named .enter, .none⟩ 0 (.learn completedAi.current) :=
    ⟨rfl, _, hpart, .commit (.completing completedAi) hkey⟩
  have hspace : session.context.settings.keymap.Gives [.cancel, .complete, .previousCompletion]
      .convert (KeyEvent.ofChar ' ') := by
    decide +kernel
  have hplace : session.shelf.writablePlace? session.context.layers = some 0 := by decide +kernel
  obtain ⟨-, hplain, -⟩ := (completed_reading typedAi [.press tab]).2 0 completedAi hsound hopened
    hsame hpart
  have hdigits : ("あいす".toList.all fun c => !c.isDigit) = true := by decide
  obtain ⟨hconvert, hlearn, -⟩ := hplain fun c hc => by
    simpa using List.all_eq_true.mp hdigits c hc
  obtain ⟨shown, hshown, -, hmem⟩ := hconvert _ hspace
  exact ⟨hpart, hlearns, hlearn _ hlearns 0 hplace, shown, hshown, hmem⟩

/-- A dictionary lists 3かい, and its second word is chosen among the completions of 3.  Committing
it is no use to 3かい, and so is purging it; both concern #かい, for which nothing is listed, so
that converting it opens a registration. -/
theorem completion_written_elsewhere :
    let words := ["三回", "三階"].map fun surface : String => ({ surface := surface.toList } : Entry)
    let session := (start Settings.builtin RomajiTable.builtin [0]
      [Dictionary.user Dictionary.userName [("3かい".toList, words)]]).pressAll
      ("Q3".toList.map KeyEvent.ofChar ++ [⟨.named .tab, .none⟩, ⟨.named .tab, .none⟩])
    let committed := session.press ⟨.named .enter, .none⟩
    let purged := session.press (KeyEvent.ofChar 'X')
    let converted := session.press (KeyEvent.ofChar ' ')
    session.context.segment.selection?.map Selection.current
        = some ⟨{ yomi := "3かい".toList }, { surface := "三階".toList }⟩ ∧
      session.shelf.lookupAt 0 "3かい".toList = words ∧
      committed.context.output = "三階".toList ∧
      committed.shelf.lookupAt 0 "3かい".toList = words ∧
      committed.shelf.lookupAt 0 "#かい".toList = [{ surface := "三階".toList }] ∧
      purged.context.segment = .idle ∧ purged.shelf.lookupAt 0 "3かい".toList = words ∧
      converted.context.preedit = "▼3かい【】".toList := by
  decide +kernel

end Session

end KanaKanji

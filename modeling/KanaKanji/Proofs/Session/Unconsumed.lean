/-
Keys that are not consumed.

A key that is of no use goes back to the host, and nothing has changed.  There is one
exception.  A key that finds a reading full commits it and is then typed directly; when all
that is left for it there is to switch to hiragana, where the mode is already, direct typing
finds it of no use, although a reading has been committed.

* `Situation.handle_of_not_consumed`: a key that is not consumed is ignored, or it is such a
  key (`Situation.SpillsUnseen`);
* `Session.unconsumed_iff`: the same of sessions, and that the exception is one.

Design notes: each handler comes with one lemma on the keys that it does not consume; the
exception is told in terms of the keymap and the reading, not of the handlers.
-/
import KanaKanji.Proofs.Session.Overflow
import KanaKanji.Romaji.Builtin

namespace KanaKanji

/-- If a command is consumed, a key that is not consumed is none, and what is ignored is
ignored by the rest. -/
theorem Outcome.ignored_of_rest {c : Prop} [Decidable c] {command rest ignored : Outcome}
    (hcommand : command.consumed = true) (hrest : rest.consumed = false → rest = ignored)
    (h : (if c then command else rest).consumed = false) :
    (if c then command else rest) = ignored := by
  by_cases hc : c
  · rw [if_pos hc, hcommand] at h
    exact nomatch h
  · rw [if_neg hc] at h ⊢
    exact hrest h

namespace Situation

variable {s : Situation} {event : KeyEvent}

/-! ### Commands of a reading -/

theorem consumed_composeCommand? {b : Buffer} {outcome : Outcome}
    (h : s.composeCommand? b event = some outcome) : outcome.consumed = true := by
  unfold composeCommand? at h
  split_ifs at h <;> obtain rfl := Option.some.inj h
  · unfold convert
    dsimp only
    split
    · rfl
    · rfl
  · rfl
  · rfl
  · unfold completeReading
    split
    · rfl
    · rfl
  · rfl
  · rfl

/-! ### Typing directly -/

theorem latin_of_not_consumed {tail : Text} (h : (s.latin tail event).consumed = false) :
    s.latin tail event = s.ignores (.direct tail) := by
  unfold latin at h ⊢
  by_cases hhiragana : s.binds .hiraganaMode event = true
  · rw [if_pos hhiragana] at h
    exact nomatch h
  · rw [if_neg hhiragana] at h ⊢
    cases hp : event.printable with
    | none => rfl
    | some c =>
      rw [hp] at h
      exact nomatch h

theorem consumed_directCommand? {tail : Text} {outcome : Outcome}
    (h : s.directCommand? tail event = some outcome) : outcome.consumed = true := by
  unfold directCommand? at h
  dsimp only at h
  split_ifs at h <;> obtain rfl := Option.some.inj h <;> rfl

theorem consumed_typeDirect (tail : Text) (event : KeyEvent) (c : Char) :
    (s.typeDirect tail event c).consumed = true := by
  unfold typeDirect
  by_cases hc : c.isUpper = true
  · rw [if_pos hc, Outcome.consumed_after]
    unfold openReading
    cases ho : s.composeCommand? .empty event with
    | none => rfl
    | some outcome => exact consumed_composeCommand? ho
  · rw [if_neg hc]
    rfl

/-- A key with a character is consumed, whether it is a command or typed. -/
theorem consumed_command_or_type (s : Situation) (tail : Text) (event : KeyEvent) (c : Char) :
    (match s.directCommand? tail event with
      | some outcome => outcome
      | none => s.typeDirect tail event c).consumed = true := by
  cases hd : s.directCommand? tail event with
  | none => exact consumed_typeDirect tail event c
  | some outcome => exact consumed_directCommand? hd

/-- Nothing is flushed from an empty tail. -/
theorem flushed_nil (s : Situation) : s.flushed [] = [] := by
  show s.mode.render [] = []
  cases s.mode <;> rfl

/-- Ending an empty tail and ignoring the key are the same. -/
theorem commits_flushed_nil (s : Situation) :
    { s.commits .idle (s.flushed []) with consumed := false } = s.ignores (.direct []) := by
  rw [flushed_nil]
  rfl

theorem romaji_of_not_consumed {tail : Text} (h : (s.romaji tail event).consumed = false) :
    s.romaji tail event = s.ignores (.direct tail) := by
  unfold romaji at h ⊢
  dsimp only at h ⊢
  by_cases hcancel : s.binds .cancel event = true
  · rw [if_pos hcancel] at h ⊢
    -- only an empty tail makes a command key useless, here and below
    have htail : tail = [] := by simpa using h
    subst htail
    rfl
  rw [if_neg hcancel] at h ⊢
  by_cases hdelete : s.binds .delete event = true
  · rw [if_pos hdelete] at h ⊢
    have htail : tail = [] := by simpa using h
    subst htail
    rfl
  rw [if_neg hdelete] at h ⊢
  by_cases hhiragana : s.binds .hiraganaMode event = true
  · rw [if_pos hhiragana] at h ⊢
    obtain ⟨htail, hmode⟩ : tail = [] ∧ s.mode = .hiragana := by simpa using h
    subst htail
    rw [flushed_nil, hmode]
    show (⟨false, .direct [], [], .hiragana, s.shelf⟩ : Outcome) = ⟨false, _, [], s.mode, _⟩
    rw [hmode]
  rw [if_neg hhiragana] at h ⊢
  by_cases hcommit : s.binds .commit event = true
  · rw [if_pos hcommit] at h ⊢
    have htail : tail = [] := by simpa using h
    subst htail
    exact commits_flushed_nil s
  rw [if_neg hcommit] at h ⊢
  cases hp : event.printable with
  | none => rfl
  | some c =>
    rw [hp] at h
    exact nomatch (consumed_command_or_type s tail event c).symm.trans h

theorem direct_of_not_consumed {tail : Text} (h : (s.direct tail event).consumed = false) :
    s.direct tail event = s.ignores (.direct tail) := by
  unfold direct at h ⊢
  by_cases hmode : s.mode.isLatin = true
  · rw [if_pos hmode] at h ⊢
    exact latin_of_not_consumed h
  · rw [if_neg hmode] at h ⊢
    exact romaji_of_not_consumed h

/-- Where nothing is typed, a key with a character that is no command of a reading is of no
use only when it switches to hiragana, and the mode is hiragana already. -/
theorem not_consumed_direct_iff (hcancel : s.binds .cancel event = false)
    (hfree : ∀ command ∈ readingCommands, s.binds command event = false)
    (hp : event.printable ≠ none) :
    (s.direct [] event).consumed = false ↔
      s.mode = .hiragana ∧ s.binds .hiraganaMode event = true := by
  obtain ⟨c, hc⟩ := Option.ne_none_iff_exists'.mp hp
  by_cases hhiragana : s.binds .hiraganaMode event = true
  · simp only [hhiragana, and_true]
    cases hmode : s.mode <;> simp [direct, latin, romaji, hmode, InputMode.isLatin, hcancel,
      hfree .delete (by decide), hhiragana]
  · -- the key then types its character, in any mode
    have hused : (s.direct [] event).consumed = true := by
      unfold direct
      by_cases hmode : s.mode.isLatin = true
      · rw [if_pos hmode, latin, if_neg hhiragana, hc]
        rfl
      · rw [if_neg hmode, romaji]
        dsimp only
        rw [hcancel, hfree .delete (by decide), hfree .commit (by decide),
          if_neg Bool.false_ne_true, if_neg Bool.false_ne_true, if_neg hhiragana,
          if_neg Bool.false_ne_true, hc]
        exact consumed_command_or_type s [] event c
    simp [hused, hhiragana]

/-! ### Readings that spill -/

/-- The key spills a reading unseen: it commits one that is full, and after that only
switches to hiragana, where the mode is already. -/
def SpillsUnseen (s : Situation) (segment : Segment) (event : KeyEvent) : Prop :=
  s.binds .cancel event = false ∧
    (s.mode = .hiragana ∧ s.binds .hiraganaMode event = true) ∧
    ∃ b, segment.innermost = .composing b ∧ s.Overflows b event

theorem compose_of_not_overflows {b : Buffer} (h : ¬ s.Overflows b event)
    (hu : (s.compose b event).consumed = false) :
    s.compose b event = s.ignores (.composing b) := by
  unfold compose at hu ⊢
  cases ho : s.composeCommand? b event with
  | some outcome =>
    rw [ho] at hu
    rw [consumed_composeCommand? ho] at hu
    exact nomatch hu
  | none =>
    rw [ho] at hu
    cases hp : event.printable with
    | none => rfl
    | some c =>
      rw [hp] at hu
      have hroom : ¬ s.isFull b = true := by
        intro hfull
        exact h ⟨composeCommand?_eq_none_iff.mp ho, by rw [hp]; exact Option.some_ne_none c,
          hfull⟩
      dsimp only at hu
      rw [if_neg hroom] at hu
      exact nomatch hu

/-- What spills unseen has changed nevertheless: the reading is gone. -/
theorem compose_of_spillsUnseen {b : Buffer} (h : s.SpillsUnseen (.composing b) event) :
    (s.compose b event).consumed = false ∧ (s.compose b event).segment = .idle := by
  obtain ⟨hcancel, hmode, other, hb, hover⟩ := h
  obtain rfl := Segment.composing.inj hb
  have hdirect := (not_consumed_direct_iff hcancel hover.1 hover.2.1).mpr hmode
  rw [compose_of_overflows hover, direct_of_not_consumed hdirect]
  exact ⟨rfl, rfl⟩

theorem compose_of_not_consumed {b : Buffer} (hcancel : s.binds .cancel event = false)
    (hu : (s.compose b event).consumed = false) :
    s.compose b event = s.ignores (.composing b) ∨ s.SpillsUnseen (.composing b) event := by
  by_cases h : s.Overflows b event
  · right
    rw [compose_of_overflows h, Outcome.consumed_after] at hu
    exact ⟨hcancel, (not_consumed_direct_iff hcancel h.1 h.2.1).mp hu, b, rfl, h⟩
  · left
    exact compose_of_not_overflows h hu

/-! ### The other handlers -/

theorem abbreviate_of_not_consumed {letters : Text} :
    (s.abbreviate letters event).consumed = false →
      s.abbreviate letters event = s.ignores (.abbreviation letters) := by
  unfold abbreviate
  dsimp only
  refine Outcome.ignored_of_rest rfl ?_
  refine Outcome.ignored_of_rest rfl ?_
  refine Outcome.ignored_of_rest rfl ?_
  refine Outcome.ignored_of_rest rfl ?_
  intro h
  cases hp : event.printable with
  | none => rfl
  | some c =>
    rw [hp] at h
    exact nomatch h

theorem commitAndType_of_not_consumed {stay : Segment} {selection : Selection}
    (h : (s.commitAndType stay selection event).consumed = false) :
    s.commitAndType stay selection event = s.ignores stay := by
  unfold commitAndType at h ⊢
  cases hp : event.printable with
  | none => rfl
  | some c =>
    rw [hp] at h
    exact nomatch h

theorem select_of_not_consumed {selection : Selection} :
    (s.select selection event).consumed = false →
      s.select selection event = s.ignores (.selecting selection) := by
  unfold select
  dsimp only
  refine Outcome.ignored_of_rest rfl ?_
  refine Outcome.ignored_of_rest rfl ?_
  refine Outcome.ignored_of_rest rfl ?_
  refine Outcome.ignored_of_rest rfl ?_
  refine Outcome.ignored_of_rest rfl ?_
  refine Outcome.ignored_of_rest rfl ?_
  exact commitAndType_of_not_consumed

theorem complete_of_not_consumed {selection : Selection} :
    (s.complete selection event).consumed = false →
      s.complete selection event = s.ignores (.completing selection) := by
  unfold complete
  dsimp only
  refine Outcome.ignored_of_rest rfl ?_
  refine Outcome.ignored_of_rest rfl ?_
  refine Outcome.ignored_of_rest rfl ?_
  refine Outcome.ignored_of_rest rfl ?_
  refine Outcome.ignored_of_rest rfl ?_
  refine Outcome.ignored_of_rest rfl ?_
  exact commitAndType_of_not_consumed

theorem consumed_registrationCommand? {key : ConversionKey} {origin : Origin} {text tail : Text}
    {outcome : Outcome} (h : s.registrationCommand? key origin text tail event = some outcome) :
    outcome.consumed = true := by
  unfold registrationCommand? at h
  split_ifs at h <;> obtain rfl := Option.some.inj h
  · unfold confirm
    split
    · rfl
    · rfl
  · rfl

/-! ### Any key -/

/-- **A key that is not consumed is ignored, or it spills a reading unseen.** -/
theorem handle_of_not_consumed (s : Situation) {segment : Segment} {event : KeyEvent}
    (h : (s.handle segment event).consumed = false) :
    s.handle segment event = s.ignores segment ∨ s.SpillsUnseen segment event := by
  refine handle_induction (P := fun s segment outcome => outcome.consumed = false →
    outcome = s.ignores segment ∨ s.SpillsUnseen segment event) event ?cancelled ?direct
    ?composing ?abbreviation ?selecting ?completing ?command ?inside s segment h
  case cancelled =>
    intro s segment _ _ h
    exact nomatch h
  case direct =>
    intro s tail h
    exact Or.inl (direct_of_not_consumed h)
  case composing =>
    intro s b hcancel h
    exact compose_of_not_consumed hcancel h
  case abbreviation =>
    intro s letters _ h
    exact Or.inl (abbreviate_of_not_consumed h)
  case selecting =>
    intro s selection _ h
    exact Or.inl (select_of_not_consumed h)
  case completing =>
    intro s selection _ h
    exact Or.inl (complete_of_not_consumed h)
  case command =>
    intro s key origin text tail outcome _ hcommand h
    rw [consumed_registrationCommand? hcommand] at h
    exact nomatch h
  case inside =>
    intro s key origin text inner _ ih h
    rcases ih h with hignored | hspills
    · left
      rw [hignored]
      -- nothing is committed, so the word stays as it was
      show (⟨false, .registering key origin (text ++ []) inner, [], _, _⟩ : Outcome) = _
      rw [List.append_nil]
      rfl
    · exact Or.inr hspills

/-- A key that spills unseen is not consumed, and the segment is another. -/
theorem handle_of_spillsUnseen (s : Situation) {segment : Segment} {event : KeyEvent}
    (h : s.SpillsUnseen segment event) :
    (s.handle segment event).consumed = false ∧ (s.handle segment event).segment ≠ segment := by
  induction segment generalizing s with
  | composing b =>
    obtain ⟨hconsumed, hsegment⟩ := compose_of_spillsUnseen h
    rw [handle_composing h.1, hsegment]
    exact ⟨hconsumed, fun hidle => Segment.noConfusion hidle⟩
  | registering key origin text inner ih =>
    obtain ⟨hconsumed, hsegment⟩ := ih s.nested h
    rcases handle_registering_cases h.1 key origin text inner with
      ⟨tail, outcome, rfl, -, -⟩ | he
    · -- what is typed directly spills nothing
      obtain ⟨-, -, b, hb, -⟩ := h
      exact nomatch hb
    · rw [he]
      refine ⟨hconsumed, fun hsame => hsegment ?_⟩
      exact (Segment.registering.inj hsame).2.2.2
  | _ =>
    obtain ⟨-, -, b, hb, -⟩ := h
    exact nomatch hb

end Situation

/-! ### Sessions -/

namespace Session

/-- Where no reading is composed, a key that is not consumed changes nothing. -/
theorem press_of_not_consumed {session : Session} {event : KeyEvent}
    (h : session.consumes event = false)
    (hinnermost : ∀ b, session.context.segment.innermost ≠ .composing b) :
    session.press event = session := by
  by_cases hrelease : event.isRelease = true
  · exact press_of_release session hrelease
  · have hpress : event.isRelease = false := by simpa using hrelease
    rw [consumes_of_not_release session hpress] at h
    rcases session.situation.handle_of_not_consumed h with hignored | ⟨-, -, b, hb, -⟩
    · rw [press_of_not_release session hpress, hignored]
      show (⟨{ session.context with output := session.context.output ++ [] }, session.shelf⟩ :
        Session) = session
      rw [List.append_nil]
    · exact absurd hb (hinnermost b)

/-- **A key that is not consumed changes nothing, unless it spills a reading unseen**; the
keys that do are never consumed, and always change the session. -/
theorem unconsumed_iff (session : Session) (event : KeyEvent) :
    (session.consumes event = false → session.press event = session) ↔
      ¬ session.situation.SpillsUnseen session.context.segment event := by
  by_cases hrelease : event.isRelease = true
  · -- a release types nothing, so that it spills nothing
    have hp : event.printable = none := by
      unfold KeyEvent.printable
      cases event.sym <;> simp [hrelease]
    refine iff_of_true (fun _ => press_of_release session hrelease) ?_
    rintro ⟨-, -, b, -, -, hne, -⟩
    exact hne hp
  · have hpress : event.isRelease = false := by simpa using hrelease
    rw [consumes_of_not_release session hpress, press_of_not_release session hpress]
    constructor
    · intro h hspills
      obtain ⟨hconsumed, hsegment⟩ := Situation.handle_of_spillsUnseen _ hspills
      -- an unchanged session would have an unchanged segment
      have hsame := congrArg (fun other => other.context.segment) (h hconsumed)
      exact hsegment hsame
    · intro h hconsumed
      have hignored := (Situation.handle_of_not_consumed _ hconsumed).resolve_right h
      rw [hignored]
      show (⟨{ session.context with output := session.context.output ++ [] }, session.shelf⟩ :
        Session) = session
      rw [List.append_nil]

/-- Readings of one character, and j for the hiragana mode. -/
def shortReadings : Settings :=
  { Settings.builtin with
    maxCompositionLength := 1
    keymap := Keymap.builtin.bind .hiraganaMode (KeyEvent.ofChar 'j') }

/-- The reading あ is full; j commits it, and is not consumed. -/
theorem unconsumed_spills :
    let session := (start shortReadings RomajiTable.builtin [] []).pressAll
      ("Qa".toList.map KeyEvent.ofChar)
    let event := KeyEvent.ofChar 'j'
    session.consumes event = false ∧ session.context.output = [] ∧
      (session.press event).context.output = "あ".toList ∧
      session.context.segment = .composing { kana := "あ".toList } ∧
      (session.press event).context.segment = .idle := by
  decide +kernel

end Session

end KanaKanji

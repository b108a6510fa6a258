/-
Typed texts: typing agrees with transliteration.

A text is typed key by key, and the transliterator meets it one key at a time; its conversion
(`RomajiTable.convert`) is a function of the whole text.  The two agree:

* typed directly, what has been committed and what the tail resolves to are together the
  conversion of the text;
* typed into a new reading with room enough and without keywords, the text is committed or
  looked up as its conversion.

`Session.typing_agrees` says both.  In between the reading has no okurigana, and its kana are
those that have resolved so far (`Session.pressAll_reading`).
-/
import KanaKanji.Proofs.Session.PlainTyping
import KanaKanji.Romaji.Builtin

namespace KanaKanji

/-! ### Converting a reading -/

namespace Situation

variable {s : Situation} {event : KeyEvent}

/-- A reading without okurigana is looked up by its kana, with those of the tail. -/
theorem convert_plain {kana tail : Text} (hne : kana ++ s.table.flush tail ≠ []) :
    s.convert (.plain kana tail) =
      s.moves (s.conversion { yomi := kana ++ s.table.flush tail } .kana) := by
  have hflush : (Buffer.plain kana tail).flush s.table
      = .plain (kana ++ s.table.flush tail) [] := rfl
  have hkana : ¬ (Buffer.plain (kana ++ s.table.flush tail) []).kana.isEmpty = true := by
    simpa [Buffer.plain] using hne
  unfold convert
  dsimp only
  rw [hflush, if_neg hkana]
  rfl

end Situation

namespace Session

variable (session : Session) {event : KeyEvent} {events : List KeyEvent} {text : Text}

theorem press_converts_reading {kana tail : Text}
    (hsegment : session.context.segment = .composing (.plain kana tail))
    (h : session.context.settings.keymap.Gives [.cancel] .convert event)
    (hne : kana ++ session.context.table.flush tail ≠ []) :
    session.press event =
      session.commits (session.situation.conversion
        { yomi := kana ++ session.context.table.flush tail } .kana) [] := by
  have hcancel : session.situation.binds .cancel event = false := h.free _ (by decide)
  refine press_of_commits session h.press ?_
  rw [hsegment, Situation.handle_composing hcancel,
    Situation.compose_of_convert (s := session.situation) h, Situation.convert_plain hne]
  rfl

/-! ### Typing directly -/

/-- The keys of a text type characters, one by one. -/
theorem exists_types {keymap : Keymap} (h : List.Forall₂ keymap.Types events text)
    (hm : event ∈ events) : ∃ c, keymap.Types event c := by
  induction h with
  | nil => exact absurd hm List.not_mem_nil
  | cons hkey _ ih =>
    rcases List.mem_cons.mp hm with rfl | hm
    · exact ⟨_, hkey⟩
    · exact ih hm

/-- Every key of a text that is typed directly is consumed. -/
theorem consumes_direct (hmode : session.context.mode.isLatin = false) {c : Char}
    {tail : Text} (hsegment : session.context.segment = .direct tail)
    (h : session.context.settings.keymap.Types event c) :
    session.consumes event = true := by
  rw [consumes_of_not_release session (isRelease_of_types h), hsegment]
  show (session.situation.direct tail event).consumed = true
  rw [Situation.direct_of_types (s := session.situation) hmode h]
  rfl

/-- From idle on, a text that is typed directly commits what resolves of it. -/
theorem pressAll_idle (hidle : session.context.segment = .idle)
    (hmode : session.context.mode.isLatin = false)
    (h : List.Forall₂ session.context.settings.keymap.Types events text) :
    session.pressAll events =
      session.commits (.direct (session.context.table.feedAll [] text).2)
        (session.context.mode.render (session.context.table.feedAll [] text).1) := by
  have hstart : session.commits (.direct []) [] = session := by
    show (⟨{ session.context with
      segment := .idle, output := session.context.output ++ [] }, session.shelf⟩ : Session) = _
    rw [← hidle, List.append_nil]
  have hall := pressAll_direct session hmode h [] []
  rw [hstart, List.nil_append] at hall
  exact hall

/-! ### Typing into a reading -/

/-- **A text that is typed into a reading adds the kana that resolve**, and leaves the tail, as
long as the reading has room before each key and no keyword ends it after one. -/
theorem pressAll_reading (h : List.Forall₂ session.context.settings.keymap.Types events text)
    (kana tail : Text)
    (hroom : ∀ n < text.length,
      (kana ++ (session.context.table.feedAll tail (text.take n)).1).length
        < session.context.settings.maxCompositionLength)
    (hquiet : ∀ n < text.length, session.context.settings.autoStartKeyword?
      (kana ++ (session.context.table.feedAll tail (text.take (n + 1))).1) = none) :
    (session.commits (.composing (.plain kana tail)) []).pressAll events =
      session.commits (.composing (.plain (kana ++ (session.context.table.feedAll tail text).1)
        (session.context.table.feedAll tail text).2)) [] := by
  induction h generalizing kana tail with
  | nil =>
    show session.commits (.composing (.plain kana tail)) []
      = session.commits (.composing (.plain (kana ++ []) tail)) []
    rw [List.append_nil]
  | @cons event c events text hkey _ ih =>
    have hlength : kana.length < session.context.settings.maxCompositionLength := by
      have h := hroom 0 (Nat.zero_lt_succ _)
      rwa [List.take_zero, show (session.context.table.feedAll tail []).1 = [] from rfl,
        List.append_nil] at h
    have hkeyword : session.context.settings.autoStartKeyword?
        (kana ++ (session.context.table.feed tail c).emitted) = none := by
      have h := hquiet 0 (Nat.zero_lt_succ _)
      rwa [List.take_succ_cons, List.take_zero, RomajiTable.feedAll_cons,
        show (session.context.table.feedAll _ []).1 = [] from rfl, List.append_nil] at h
    have hstart : session.situation.autoStartKey?
        (.plain (kana ++ (session.context.table.feed tail c).emitted)
          (session.context.table.feed tail c).tail) = none := by
      show (session.context.settings.autoStartKeyword? _).bind _ = none
      exact Option.bind_eq_none_iff.mpr fun keyword hk => nomatch hkeyword.symm.trans hk
    have hpress := press_reading (session.commits (.composing (.plain kana tail)) [])
      rfl hkey hlength hstart
    rw [pressAll_cons, hpress, commits_commits]
    -- the rest is typed behind what the key has resolved to
    refine (ih _ _ (fun n hn => ?_) (fun n hn => ?_)).trans ?_
    · have h := hroom (n + 1) (Nat.succ_lt_succ hn)
      rwa [List.take_succ_cons, RomajiTable.feedAll_cons, ← List.append_assoc] at h
    · have h := hquiet (n + 1) (Nat.succ_lt_succ hn)
      rwa [List.take_succ_cons, RomajiTable.feedAll_cons, ← List.append_assoc] at h
    · rw [RomajiTable.feedAll_cons, List.append_assoc]
      rfl

/-- A reading that has been opened and nothing typed into yet. -/
theorem pressAll_opened (hopened : session.context.segment = .composing .empty)
    (h : List.Forall₂ session.context.settings.keymap.Types events text)
    (hroom : ∀ n < text.length, (session.context.table.feedAll [] (text.take n)).1.length
      < session.context.settings.maxCompositionLength)
    (hquiet : ∀ n < text.length, session.context.settings.autoStartKeyword?
      (session.context.table.feedAll [] (text.take (n + 1))).1 = none) :
    session.pressAll events =
      session.commits (.composing (.plain (session.context.table.feedAll [] text).1
        (session.context.table.feedAll [] text).2)) [] := by
  have hstart : session.commits (.composing (.plain [] [])) [] = session := by
    show (⟨{ session.context with
      segment := .composing .empty
      output := session.context.output ++ [] }, session.shelf⟩ : Session) = _
    rw [← hopened, List.append_nil]
  have hall := pressAll_reading session h [] [] hroom hquiet
  rw [hstart, List.nil_append] at hall
  exact hall

/-! ### Both ways of typing -/

/-- **Typing agrees with the conversion of the whole text.**  Typed directly, every key is
consumed, and at any time the text committed and the flushed tail are together the conversion of
what has been typed, in the form of the mode; a commit key then completes it.  Typed into a new
reading, which has room before each key and never ends with a keyword, the text is committed by
a commit key as its conversion, and looked up by a convert key as its conversion. -/
theorem typing_agrees (session : Session) {events : List KeyEvent} {text : Text}
    (h : List.Forall₂ session.context.settings.keymap.Types events text) :
    let keymap := session.context.settings.keymap
    let table := session.context.table
    let render := session.context.mode.render
    (session.context.segment = .idle → session.context.mode.isLatin = false → ∀ n,
      let typed := session.pressAll (events.take n)
      let tail := typed.context.segment.buffer.tail
      (∀ event ∈ events[n]?, typed.consumes event = true) ∧
      typed.context.segment.mode = .direct ∧
      typed.context.output ++ render (table.flush tail)
        = session.context.output ++ render (table.convert (text.take n)) ∧
      ∀ commit, keymap.Gives [.cancel, .delete] .commit commit →
        (typed.press commit).context.output
          = session.context.output ++ render (table.convert (text.take n))) ∧
    (session.context.segment = .composing .empty →
      (∀ n < text.length, (table.feedAll [] (text.take n)).1.length
        < session.context.settings.maxCompositionLength) →
      (∀ n < text.length, session.context.settings.autoStartKeyword?
        (table.feedAll [] (text.take (n + 1))).1 = none) →
      let typed := session.pressAll events
      (∀ commit, keymap.Gives [.cancel, .convert] .commit commit →
        (typed.press commit).context.segment = .idle ∧
        (typed.press commit).context.output
          = session.context.output ++ render (table.convert text)) ∧
      ∀ convert, keymap.Gives [.cancel] .convert convert → table.convert text ≠ [] →
        (typed.press convert).context.segment
          = session.situation.conversion { yomi := table.convert text } .kana ∧
        (typed.press convert).context.output = session.context.output) := by
  intro keymap table render
  constructor
  · intro hidle hmode n typed tail
    have htaken : List.Forall₂ keymap.Types (events.take n) (text.take n) :=
      List.forall₂_take n h
    have htyped : typed = session.commits (.direct (table.feedAll [] (text.take n)).2)
        (render (table.feedAll [] (text.take n)).1) :=
      pressAll_idle session hidle hmode htaken
    have hconvert : render (table.convert (text.take n)) =
        render (table.feedAll [] (text.take n)).1 ++
          render (table.flush (table.feedAll [] (text.take n)).2) :=
      InputMode.render_append _ _ _
    refine ⟨?_, ?_, ?_, fun commit hcommit => ?_⟩
    · intro event hevent
      obtain ⟨c, hkey⟩ := exists_types h (List.mem_of_getElem? hevent)
      rw [htyped]
      exact consumes_direct _ hmode rfl hkey
    · rw [htyped]
      rfl
    · have htail : tail = (table.feedAll [] (text.take n)).2 := by
        show typed.context.segment.buffer.tail = _
        rw [htyped]
        rfl
      rw [htail, htyped, hconvert, ← List.append_assoc]
      rfl
    · rw [htyped, hconvert, ← List.append_assoc]
      exact output_press_commits_direct _ rfl hmode hcommit
  · intro hopened hroom hquiet typed
    have htyped : typed = session.commits
        (.composing (.plain (table.feedAll [] text).1 (table.feedAll [] text).2)) [] :=
      pressAll_opened session hopened h hroom hquiet
    refine ⟨fun commit hcommit => ?_, fun convert hkey hne => ?_⟩
    · rw [htyped, press_commits_reading (session.commits _ []) rfl hcommit, commits_commits]
      exact ⟨rfl, rfl⟩
    · rw [htyped, press_converts_reading (session.commits _ []) rfl hkey hne, commits_commits]
      exact ⟨rfl, List.append_nil _⟩

/-- かんなったん in katakana: typed directly and committed, and typed into a reading and
converted. -/
theorem typing_agrees_kannattan :
    let idle := (start Settings.builtin RomajiTable.builtin [] []).serve (.setMode .katakana)
    let opened := idle.press (KeyEvent.ofChar 'Q')
    let text := "kannnattan".toList
    let events := text.map KeyEvent.ofChar
    let enter : KeyEvent := ⟨.named .enter, .none⟩
    let space := KeyEvent.ofChar ' '
    let kana := "かんなったん".toList
    List.Forall₂ idle.context.settings.keymap.Types events text ∧
      idle.context.segment = .idle ∧ opened.context.segment = .composing .empty ∧
      ((idle.pressAll events).press enter).context.output = katakana kana ∧
      ((opened.pressAll events).press enter).context.output = katakana kana ∧
      ((opened.pressAll events).press space).context.segment
        = opened.situation.conversion { yomi := kana } .kana := by
  intro idle opened text events enter space kana
  have htyped : List.Forall₂ idle.context.settings.keymap.Types events text := by
    decide +kernel
  have hidle : idle.context.segment = .idle := by decide +kernel
  have hopened : opened.context.segment = .composing .empty := by decide +kernel
  have hdirect : idle.context.table.convert text = kana := by decide +kernel
  have hcomposed : opened.context.table.convert text = kana := by decide +kernel
  have hall : events.take text.length = events := List.take_of_length_le (by simp [events])
  -- directly: the commit key completes the text
  obtain ⟨-, -, -, hcommitted⟩ := (typing_agrees idle htyped).1 hidle rfl text.length
  have hended := hcommitted enter (by decide +kernel)
  rw [hall, List.take_length, hdirect] at hended
  -- in a reading: there is room for it, and no keyword in it
  obtain ⟨hcommit, hconvert⟩ :=
    (typing_agrees opened htyped).2 hopened (by decide +kernel) (by decide +kernel)
  have hcommitted := (hcommit enter (by decide +kernel)).2
  have hlooked := (hconvert space (by decide +kernel) (by decide +kernel)).1
  rw [hcomposed] at hcommitted hlooked
  exact ⟨htyped, hidle, hopened, hended, hcommitted, hlooked⟩

end Session

end KanaKanji

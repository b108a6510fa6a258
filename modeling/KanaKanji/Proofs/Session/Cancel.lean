/-
Cancelling.

A cancel key drops whatever is going on, at any depth of registrations, and commits nothing.
Only a session that takes its keys as Latin characters (`Session.TypesLatin`) has no command
but the one that switches back to hiragana; there a cancel key is a key like any other, which
types its character or goes back to the host.

* `Session.press_of_cancel`: elsewhere what is left is the session, idle;
* `Session.press_of_latin`: what a key does to Latin typing;
* `Session.cancel_drops`: both together, in what a host can see.
-/
import KanaKanji.Proofs.Session.Run
import KanaKanji.Romaji.Builtin

namespace KanaKanji

/-! ### One key -/

namespace Situation

variable {s : Situation} {event : KeyEvent}

/-- Outside of Latin typing a cancel key leads to idle, and changes nothing else. -/
theorem handle_of_cancel_of_not_latin (h : s.binds .cancel event = true) {segment : Segment}
    (hlatin : ¬ (s.mode.isLatin = true ∧ segment.mode = .direct)) :
    ∃ consumed, s.handle segment event = { s.moves .idle with consumed := consumed } := by
  cases segment with
  | direct tail =>
    have hmode : ¬ s.mode.isLatin = true := fun hm => hlatin ⟨hm, rfl⟩
    refine ⟨!tail.isEmpty, ?_⟩
    show s.direct tail event = _
    rw [direct, if_neg hmode, romaji]
    dsimp only
    rw [if_pos h]
  | _ => exact ⟨true, handle_of_cancel h nofun⟩

/-- In a Latin mode a key switches to hiragana, or types its character if it has one. -/
theorem latin_eq (s : Situation) (tail : Text) (event : KeyEvent) :
    (s.latin tail event).segment = .direct tail ∧ (s.latin tail event).shelf = s.shelf ∧
      (s.binds .hiraganaMode event = true →
        (s.latin tail event).mode = .hiragana ∧ (s.latin tail event).committed = []) ∧
      (s.binds .hiraganaMode event = false →
        (s.latin tail event).mode = s.mode ∧
          (s.latin tail event).committed = (event.printable.map s.mode.latinChar).toList) := by
  unfold latin
  by_cases hhiragana : s.binds .hiraganaMode event = true
  · rw [if_pos hhiragana]
    exact ⟨rfl, rfl, fun _ => ⟨rfl, rfl⟩, fun hne => nomatch hne.symm.trans hhiragana⟩
  · rw [if_neg hhiragana]
    cases event.printable with
    | none => exact ⟨rfl, rfl, fun hb => absurd hb hhiragana, fun _ => ⟨rfl, rfl⟩⟩
    | some c => exact ⟨rfl, rfl, fun hb => absurd hb hhiragana, fun _ => ⟨rfl, rfl⟩⟩

end Situation

/-! ### Sessions -/

namespace Session

/-- The session takes its keys as Latin characters: nothing is composed or chosen, and the
mode is a Latin one. -/
def TypesLatin (session : Session) : Prop :=
  session.context.mode.isLatin = true ∧ session.context.segment.mode = .direct

instance (session : Session) : Decidable session.TypesLatin :=
  inferInstanceAs (Decidable (_ ∧ _))

variable (session : Session) {event : KeyEvent}

/-- A cancel key leaves the session idle. -/
theorem press_of_cancel (h : session.context.settings.keymap.Gives [] .cancel event)
    (hlatin : ¬ session.TypesLatin) :
    session.press event =
      { session with context := { session.context with segment := .idle } } := by
  obtain ⟨consumed, hhandle⟩ :=
    Situation.handle_of_cancel_of_not_latin (s := session.situation) h.bound hlatin
  rw [press_of_not_release session h.press, hhandle]
  show (⟨{ session.context with
    segment := .idle, output := session.context.output ++ [] }, session.shelf⟩ : Session) = _
  rw [List.append_nil]

/-- Latin typing goes on with a key, which switches to hiragana or types its character. -/
theorem press_of_latin (hpress : event.isRelease = false) (hlatin : session.TypesLatin) :
    let after := session.press event
    after.context.segment = session.context.segment ∧ after.shelf = session.shelf ∧
      (session.situation.binds .hiraganaMode event = true →
        after.context.mode = .hiragana ∧ after.context.output = session.context.output) ∧
      (session.situation.binds .hiraganaMode event = false →
        after.context.mode = session.context.mode ∧
          after.context.output = session.context.output ++
            (event.printable.map session.context.mode.latinChar).toList) := by
  intro after
  obtain ⟨hmode, hdirect⟩ := hlatin
  cases hsegment : session.context.segment with
  | direct tail =>
    have hhandle : session.situation.handle session.context.segment event
        = session.situation.latin tail event := by
      rw [hsegment]
      exact if_pos hmode
    obtain ⟨hsame, hshelf, hswitch, htype⟩ := session.situation.latin_eq tail event
    have hafter : after = _ := press_of_not_release session hpress
    rw [hhandle] at hafter
    rw [hafter]
    refine ⟨hsame, hshelf, fun hb => ?_, fun hb => ?_⟩
    · obtain ⟨hhiragana, hcommitted⟩ := hswitch hb
      refine ⟨hhiragana, ?_⟩
      show session.context.output ++ (session.situation.latin tail event).committed = _
      rw [hcommitted, List.append_nil]
    · obtain ⟨hkept, hcommitted⟩ := htype hb
      exact ⟨hkept, congrArg (session.context.output ++ ·) hcommitted⟩
  | _ =>
    rw [hsegment] at hdirect
    exact nomatch hdirect

/-- **Cancelling is total, except for Latin typing.**  After a cancel key nothing is composed,
chosen or registered, and the dictionaries are as before.  Outside of Latin typing nothing is
shown either, nothing has been committed, and the input mode is as before.  In Latin typing the
key does what keys do there: it switches to hiragana if it is bound to that as well, and else
types its character, if it has one; where no tail is pending, nothing is shown after it. -/
theorem cancel_drops (session : Session) {event : KeyEvent}
    (h : session.context.settings.keymap.Gives [] .cancel event) :
    let after := session.press event
    after.context.segment.mode = .direct ∧ after.context.segment.depth = 0 ∧
      after.shelf = session.shelf ∧
      (¬ session.TypesLatin →
        after.context.segment.buffer.isEmpty = true ∧ after.context.preedit = [] ∧
          after.context.output = session.context.output ∧
          after.context.mode = session.context.mode) ∧
      (session.TypesLatin →
        (session.context.segment = .idle →
          after.context.segment.buffer.isEmpty = true ∧ after.context.preedit = []) ∧
        (session.situation.binds .hiraganaMode event = true →
          after.context.mode = .hiragana ∧ after.context.output = session.context.output) ∧
        (session.situation.binds .hiraganaMode event = false →
          after.context.mode = session.context.mode ∧
            after.context.output = session.context.output ++
              (event.printable.map session.context.mode.latinChar).toList)) := by
  intro after
  by_cases hlatin : session.TypesLatin
  · obtain ⟨hsegment, hshelf, hswitch, htype⟩ := press_of_latin session h.press hlatin
    -- what is typed directly is no registration
    have hdirect : after.context.segment.mode = .direct := by
      show (session.press event).context.segment.mode = .direct
      rw [hsegment]
      exact hlatin.2
    have hdepth : after.context.segment.depth = 0 := by
      cases hs : after.context.segment with
      | direct tail => rfl
      | _ =>
        rw [hs] at hdirect
        exact nomatch hdirect
    refine ⟨hdirect, hdepth, hshelf, fun hn => absurd hlatin hn, fun _ => ⟨?_, hswitch, htype⟩⟩
    intro hidle
    have hafter : after.context.segment = .idle := hsegment.trans hidle
    refine ⟨by rw [hafter]; rfl, ?_⟩
    rw [Context.preedit, hafter]
    rfl
  · have hafter : after = _ := press_of_cancel session h hlatin
    rw [hafter]
    exact ⟨rfl, rfl, rfl, fun _ => ⟨rfl, rfl, rfl, rfl⟩, fun hl => absurd hl hlatin⟩

/-- A letter with control. -/
def controlKey (c : Char) : KeyEvent := ⟨.char c, { control := true }⟩

/-- Inside two registrations, a tail pending and the mode a Latin one, all is dropped. -/
theorem cancel_drops_nested :
    let session := ((start Settings.builtin RomajiTable.builtin [] []).pressAll
      ("Ka Ki k".toList.map KeyEvent.ofChar)).serve (.setMode .zenkaku)
    let after := session.press (controlKey 'g')
    session.context.settings.keymap.Gives [] .cancel (controlKey 'g') ∧
      session.context.preedit = "▼か【▼き【k】】".toList ∧
      after.context.segment.mode = .direct ∧ after.context.preedit = [] ∧
      after.context.output = [] ∧ after.context.mode = .zenkaku := by
  intro session after
  have hkey : session.context.settings.keymap.Gives [] .cancel (controlKey 'g') := by
    decide +kernel
  have hlatin : ¬ session.TypesLatin := by decide +kernel
  obtain ⟨hdirect, -, -, hother, -⟩ := cancel_drops session hkey
  obtain ⟨-, hpreedit, houtput, hmode⟩ := hother hlatin
  have hsession : session.context.preedit = "▼か【▼き【k】】".toList ∧
      session.context.output = [] ∧ session.context.mode = .zenkaku := by
    decide +kernel
  exact ⟨hkey, hsession.1, hdirect, hpreedit, houtput.trans hsession.2.1,
    hmode.trans hsession.2.2⟩

/-- In Latin typing a cancel key that has a character types it, one that is bound to
hiragana_mode too changes the mode, and a tail that was pending when the host changed the mode
is still shown. -/
theorem latin_not_cancelled :
    let settings := { Settings.builtin with
      keymap := (Keymap.builtin.bind .cancel (KeyEvent.ofChar 'x')).bind .cancel (controlKey 'j') }
    let session := start settings RomajiTable.builtin [] []
    let typing := session.serve (.setMode .ascii)
    let pending := (session.press (KeyEvent.ofChar 'k')).serve (.setMode .ascii)
    (∀ key ∈ [KeyEvent.ofChar 'x', controlKey 'j', controlKey 'g'],
        settings.keymap.Gives [] .cancel key) ∧
      typing.context.output = [] ∧
      (typing.press (KeyEvent.ofChar 'x')).context.output = "x".toList ∧
      (typing.press (controlKey 'j')).context.mode = .hiragana ∧
      (pending.press (controlKey 'g')).context.preedit = "k".toList := by
  decide +kernel

end Session

end KanaKanji

/-
Plain typing: keys that are no commands and type no capitals.

Such keys only feed the transliterator.  Typed directly, they commit the kana that resolve
and leave the tail (`Session.pressAll_direct`); while a reading without okurigana is composed,
the kana go to the reading (`Session.press_reading`).

Design notes: what a key commits is added to what has been committed before, so the sessions
that a text leads through differ from the first only by a segment and by more committed text
(`Session.commits`).
-/
import KanaKanji.Proofs.Romaji.Cut
import KanaKanji.Proofs.Session.Overflow
import Mathlib.Data.List.Forall2

namespace KanaKanji

/-! ### Keys -/

namespace Keymap

/-- The event is no command and types the character, which is no capital. -/
structure Types (keymap : Keymap) (event : KeyEvent) (c : Char) : Prop where
  printable : event.printable = some c
  isUpper : c.isUpper = false
  free : ∀ command, keymap.binds command event = false

instance (keymap : Keymap) (event : KeyEvent) (c : Char) : Decidable (keymap.Types event c) :=
  decidable_of_iff (event.printable = some c ∧ c.isUpper = false ∧
      ∀ command, keymap.binds command event = false)
    ⟨fun h => ⟨h.1, h.2.1, h.2.2⟩, fun h => ⟨h.printable, h.isUpper, h.free⟩⟩

/-- The event opens a reading where nothing is composed: no command takes it before. -/
structure Begins (keymap : Keymap) (event : KeyEvent) : Prop where
  printable : event.printable ≠ none
  bound : keymap.binds .beginComposition event = true
  free : ∀ command ∈ [Command.cancel, .delete, .hiraganaMode, .commit, .toggleKatakana,
    .asciiMode, .zenkakuMode], keymap.binds command event = false

/-- The event commits what is typed or composed: no command takes it before. -/
structure Commits (keymap : Keymap) (event : KeyEvent) : Prop where
  press : event.isRelease = false
  bound : keymap.binds .commit event = true
  free : ∀ command ∈ [Command.cancel, .convert, .delete], keymap.binds command event = false

namespace Commits

variable {keymap : Keymap} {event : KeyEvent} (h : keymap.Commits event)
include h

theorem gives_direct : keymap.Gives [.cancel, .delete] .commit event :=
  have hsub : [Command.cancel, .delete] ⊆ [Command.cancel, .convert, .delete] := by decide
  ⟨h.press, h.bound, fun command hm => h.free command (hsub hm)⟩

theorem gives_reading : keymap.Gives [.cancel, .convert] .commit event :=
  have hsub : [Command.cancel, .convert] ⊆ [Command.cancel, .convert, .delete] := by decide
  ⟨h.press, h.bound, fun command hm => h.free command (hsub hm)⟩

end Commits

end Keymap

/-! ### Kana in the form of a mode -/

namespace InputMode

theorem render_append (mode : InputMode) (first second : Text) :
    mode.render (first ++ second) = mode.render first ++ mode.render second := by
  cases mode with
  | katakana => exact List.map_append
  | _ => rfl

@[simp] theorem render_nil (mode : InputMode) : mode.render [] = [] := by
  cases mode <;> rfl

end InputMode

/-! ### Readings without okurigana -/

namespace Buffer

/-- A reading without okurigana. -/
def plain (kana tail : Text) : Buffer :=
  { kana := kana, tail := tail }

@[simp] theorem text_plain (kana tail : Text) : (plain kana tail).text = kana := by
  simp [plain, text, okuriText]

theorem text_flush_plain (table : RomajiTable) (kana tail : Text) :
    ((plain kana tail).flush table).text = kana ++ table.flush tail := by
  simp [plain, flush, append, text, okuriText]

theorem okuriComplete_plain (kana tail : Text) : (plain kana tail).okuriComplete = false := by
  simp [plain, okuriComplete, okuriText]

theorem type_plain {table : RomajiTable} {c : Char} (hc : c.isUpper = false)
    (kana tail : Text) :
    (plain kana tail).type table c =
      plain (kana ++ (table.feed tail c).emitted) (table.feed tail c).tail := by
  simp [plain, type, append, hc]

end Buffer

/-! ### One key in one situation -/

namespace Situation

variable {s : Situation} {event : KeyEvent} {c : Char}

theorem not_cancel_of_types (h : s.settings.keymap.Types event c) :
    s.binds .cancel event = false :=
  h.free .cancel

/-- Typed directly, a plain key feeds the transliterator. -/
theorem direct_of_types (hmode : s.mode.isLatin = false)
    (h : s.settings.keymap.Types event c) (tail : Text) :
    s.direct tail event =
      s.commits (.direct (s.table.feed tail c).tail) (s.render (s.table.feed tail c).emitted) := by
  have hfree : ∀ command, s.binds command event = false := h.free
  have hcommand : s.directCommand? tail event = none := by
    simp [directCommand?, hfree]
  simp [direct, romaji, typeDirect, hmode, hfree, h.printable, h.isUpper, hcommand]

/-- While a reading is composed and has room, a plain key types its character. -/
theorem compose_of_types (h : s.settings.keymap.Types event c) {b : Buffer}
    (hroom : s.isFull b = false) : s.compose b event = s.typeReading b c :=
  compose_of_room (fun command _ => h.free command) h.printable hroom

/-- A reading without room is committed, and the plain key typed directly. -/
theorem compose_of_types_of_isFull (hmode : s.mode.isLatin = false)
    (h : s.settings.keymap.Types event c) {b : Buffer} (hfull : s.isFull b = true) :
    s.compose b event =
      s.commits (.direct (s.table.feed [] c).tail)
        (s.render (b.flush s.table).text ++ s.render (s.table.feed [] c).emitted) := by
  have hover : s.Overflows b event := by
    refine ⟨fun command _ => h.free command, ?_, hfull⟩
    rw [h.printable]
    exact Option.some_ne_none c
  rw [compose_of_overflows hover, direct_of_types hmode h]
  rfl

/-- A reading without okurigana takes the kana that resolve, unless a keyword starts its
conversion. -/
theorem typeReading_plain (hc : c.isUpper = false) (kana tail : Text)
    (hstart : s.autoStartKey?
      (.plain (kana ++ (s.table.feed tail c).emitted) (s.table.feed tail c).tail) = none) :
    s.typeReading (.plain kana tail) c =
      s.moves (.composing
        (.plain (kana ++ (s.table.feed tail c).emitted) (s.table.feed tail c).tail)) := by
  unfold typeReading
  rw [Buffer.type_plain hc, afterTyping, Buffer.okuriComplete_plain,
    if_neg Bool.false_ne_true, hstart]
  simp only [ite_self]

/-- Without keywords no conversion starts by itself. -/
theorem autoStartKey?_eq_none (h : s.settings.autoStartKeywords = []) (b : Buffer) :
    s.autoStartKey? b = none := by
  simp [autoStartKey?, Settings.autoStartKeyword?, h]

theorem direct_of_begins (hmode : s.mode.isLatin = false)
    (h : s.settings.keymap.Begins event) (tail : Text) :
    s.direct tail event = s.commits (.composing .empty) (s.flushed tail) := by
  obtain ⟨c, hc⟩ := Option.ne_none_iff_exists'.mp h.printable
  have hfree : ∀ command ∈ [Command.cancel, .delete, .hiraganaMode, .commit, .toggleKatakana,
    .asciiMode, .zenkakuMode], s.binds command event = false := h.free
  have hbound : s.binds .beginComposition event = true := h.bound
  simp only [List.forall_mem_cons] at hfree
  obtain ⟨hcancel, hdelete, hhiragana, hcommit, htoggle, hascii, hzenkaku, -⟩ := hfree
  simp [direct, romaji, directCommand?, hmode, hcancel, hdelete, hhiragana, hcommit, hc, htoggle,
    hascii, hzenkaku, hbound]
  rfl

/-- A commit key ends what is typed directly; which mode it leads to does not matter. -/
theorem direct_of_commits (hmode : s.mode.isLatin = false)
    (h : s.settings.keymap.Gives [.cancel, .delete] .commit event) (tail : Text) :
    (s.direct tail event).segment = .idle ∧
      (s.direct tail event).committed = s.render (s.table.flush tail) := by
  have hcancel : s.binds .cancel event = false := h.free _ (by decide)
  have hdelete : s.binds .delete event = false := h.free _ (by decide)
  have hcommit : s.binds .commit event = true := h.bound
  rw [direct, hmode, if_neg Bool.false_ne_true, romaji]
  dsimp only
  rw [hcancel, hdelete, if_neg Bool.false_ne_true, if_neg Bool.false_ne_true]
  by_cases hhiragana : s.binds .hiraganaMode event = true
  · rw [if_pos hhiragana]
    exact ⟨rfl, rfl⟩
  · rw [if_neg hhiragana, if_pos hcommit]
    exact ⟨rfl, rfl⟩

theorem compose_of_commits (h : s.settings.keymap.Gives [.cancel, .convert] .commit event)
    (b : Buffer) :
    s.compose b event = s.commitKana s.render b := by
  have hconvert : s.binds .convert event = false := h.free _ (by decide)
  have hcommit : s.binds .commit event = true := h.bound
  rw [compose, composeCommand?, hconvert, if_neg Bool.false_ne_true, if_pos hcommit]

end Situation

/-! ### Keys in a session -/

namespace Session

/-- The session in another segment, with more text committed. -/
def commits (session : Session) (segment : Segment) (committed : Text) : Session :=
  { session with
    context := { session.context with
      segment := segment
      output := session.context.output ++ committed } }

/-- What is committed later stands behind. -/
theorem commits_commits (session : Session) (first second : Segment) (committed more : Text) :
    (session.commits first committed).commits second more
      = session.commits second (committed ++ more) := by
  simp [commits, List.append_assoc]

variable (session : Session) {event : KeyEvent} {c : Char}

/-- A key that commits a text and changes nothing besides the segment. -/
theorem press_of_commits {segment : Segment} {committed : Text}
    (hrelease : event.isRelease = false)
    (h : session.situation.handle session.context.segment event
      = session.situation.commits segment committed) :
    session.press event = session.commits segment committed := by
  rw [press_of_not_release session hrelease, h]
  rfl

theorem isRelease_of_types {keymap : Keymap} (h : keymap.Types event c) :
    event.isRelease = false :=
  KeyEvent.isRelease_of_eq_some h.printable

/-- A plain key that is typed directly commits what resolves. -/
theorem press_direct {tail : Text} (hsegment : session.context.segment = .direct tail)
    (hmode : session.context.mode.isLatin = false)
    (h : session.context.settings.keymap.Types event c) :
    session.press event =
      session.commits (.direct (session.context.table.feed tail c).tail)
        (session.context.mode.render (session.context.table.feed tail c).emitted) := by
  refine press_of_commits session (isRelease_of_types h) ?_
  rw [hsegment]
  exact Situation.direct_of_types (s := session.situation) hmode h tail

/-- A plain key that is typed while there is room in a reading goes to the reading. -/
theorem press_reading {kana tail : Text}
    (hsegment : session.context.segment = .composing (.plain kana tail))
    (h : session.context.settings.keymap.Types event c)
    (hroom : kana.length < session.context.settings.maxCompositionLength)
    (hstart : session.situation.autoStartKey?
      (.plain (kana ++ (session.context.table.feed tail c).emitted)
        (session.context.table.feed tail c).tail) = none) :
    session.press event =
      session.commits (.composing
        (.plain (kana ++ (session.context.table.feed tail c).emitted)
          (session.context.table.feed tail c).tail)) [] := by
  have hfull : session.situation.isFull (.plain kana tail) = false := by
    rw [Situation.isFull, Buffer.text_plain]
    exact decide_eq_false (Nat.not_le.mpr hroom)
  refine press_of_commits session (isRelease_of_types h) ?_
  rw [hsegment, Situation.handle_composing (Situation.not_cancel_of_types h),
    Situation.compose_of_types h hfull]
  exact Situation.typeReading_plain (s := session.situation) h.isUpper kana tail hstart

/-- A plain key that is typed where there is none commits the reading before. -/
theorem press_full {kana tail : Text}
    (hsegment : session.context.segment = .composing (.plain kana tail))
    (hmode : session.context.mode.isLatin = false)
    (h : session.context.settings.keymap.Types event c)
    (hfull : session.context.settings.maxCompositionLength ≤ kana.length) :
    session.press event =
      session.commits (.direct (session.context.table.feed [] c).tail)
        (session.context.mode.render (kana ++ session.context.table.flush tail) ++
          session.context.mode.render (session.context.table.feed [] c).emitted) := by
  have hisFull : session.situation.isFull (.plain kana tail) = true := by
    rw [Situation.isFull, Buffer.text_plain]
    exact decide_eq_true hfull
  refine press_of_commits session (isRelease_of_types h) ?_
  rw [hsegment, Situation.handle_composing (Situation.not_cancel_of_types h),
    Situation.compose_of_types_of_isFull (s := session.situation) hmode h hisFull,
    Buffer.text_flush_plain]
  rfl

/-! ### Keys that begin and end -/

theorem press_begins {tail : Text} (hsegment : session.context.segment = .direct tail)
    (hmode : session.context.mode.isLatin = false)
    (h : session.context.settings.keymap.Begins event) :
    session.press event =
      session.commits (.composing (.plain [] []))
        (session.context.mode.render (session.context.table.flush tail)) := by
  refine press_of_commits session (KeyEvent.isRelease_of_printable h.printable) ?_
  rw [hsegment]
  exact Situation.direct_of_begins (s := session.situation) hmode h tail

theorem output_press_commits_direct {tail : Text}
    (hsegment : session.context.segment = .direct tail)
    (hmode : session.context.mode.isLatin = false)
    (h : session.context.settings.keymap.Gives [.cancel, .delete] .commit event) :
    (session.press event).context.output =
      session.context.output ++
        session.context.mode.render (session.context.table.flush tail) := by
  rw [press_of_not_release session h.press, hsegment]
  obtain ⟨-, hcommitted⟩ :=
    Situation.direct_of_commits (s := session.situation) hmode h tail
  exact congrArg (session.context.output ++ ·) hcommitted

theorem press_commits_reading {kana tail : Text}
    (hsegment : session.context.segment = .composing (.plain kana tail))
    (h : session.context.settings.keymap.Gives [.cancel, .convert] .commit event) :
    session.press event =
      session.commits .idle
        (session.context.mode.render (kana ++ session.context.table.flush tail)) := by
  have hcancel : session.situation.binds .cancel event = false := h.free _ (by decide)
  refine press_of_commits session h.press ?_
  rw [hsegment, Situation.handle_composing hcancel,
    Situation.compose_of_commits (s := session.situation) h, Situation.commitKana,
    Buffer.text_flush_plain]
  rfl

/-! ### Whole texts -/

variable {events : List KeyEvent} {text : Text}

/-- **A text that is typed directly commits what resolves of it**, and leaves the tail. -/
theorem pressAll_direct (hmode : session.context.mode.isLatin = false)
    (h : List.Forall₂ session.context.settings.keymap.Types events text)
    (tail committed : Text) :
    (session.commits (.direct tail) committed).pressAll events =
      session.commits (.direct (session.context.table.feedAll tail text).2)
        (committed ++
          session.context.mode.render (session.context.table.feedAll tail text).1) := by
  induction h generalizing tail committed with
  | nil =>
    show session.commits (.direct tail) committed
      = session.commits (.direct tail) (committed ++ session.context.mode.render [])
    rw [InputMode.render_nil, List.append_nil]
  | @cons event c events text hkey _ ih =>
    have hpress := press_direct (session.commits (.direct tail) committed) rfl hmode hkey
    -- after the key the session is again the first one, in another segment
    rw [pressAll_cons, hpress, commits_commits]
    refine (ih _ _).trans ?_
    rw [RomajiTable.feedAll_cons, InputMode.render_append, List.append_assoc]
    rfl

end Session

end KanaKanji

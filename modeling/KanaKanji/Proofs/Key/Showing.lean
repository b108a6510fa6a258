/-
Keys that are shown and read again.

What shows a key is written with a base and marks for control, meta and alt.  There is no mark for
shift: a character tells it, and of a named key it is not shown.

* `Keymap.binds_alike_iff`: what keymaps can tell apart;
* `KeyEvent.ofNotation_notationText`: what is read of a key that is shown;
* `KeyEvent.shown_and_read`: that is the same key to all keymaps, unless it is a named key that was
  pressed with shift;
* `KeyEvent.shift_not_shown`: such a key.
-/
import KanaKanji.Proofs.Key.Grammar
import KanaKanji.Settings.Basic
import Mathlib.Data.List.Basic

namespace KanaKanji

/-! ### Keys that keymaps tell apart -/

namespace Keymap

theorem binds_congr {event other : KeyEvent} (h : event.normalized = other.normalized)
    (keymap : Keymap) (command : Command) :
    keymap.binds command event = keymap.binds command other := by
  unfold binds KeyEvent.sameKey
  rw [h]

/-- Keymaps tell events apart by what they are when normalized, and by nothing else. -/
theorem binds_alike_iff {event other : KeyEvent} :
    (∀ keymap command, Keymap.binds keymap command event = keymap.binds command other) ↔
      event.normalized = other.normalized := by
  constructor
  · intro h
    -- a keymap with this one key
    have hone := h (empty.set .commit [event]) .commit
    simpa [binds, KeyEvent.sameKey] using hone
  · exact fun h keymap command => binds_congr h keymap command

end Keymap

namespace KeyEvent

/-! ### How a key is shown -/

/-- The marks that show modifiers. -/
def shownMarks (m : Modifiers) : List Mark :=
  (if m.control then [.control] else []) ++ (if m.metaKey then [.metaKey] else [])
    ++ if m.alt then [.alt] else []

/-- The event that is read where the event is shown: released no more, and with the shift that its
symbol implies. -/
def asShown (e : KeyEvent) : KeyEvent :=
  ⟨e.sym, { e.modifiers with shift := (impliedModifiers e.sym).shift, release := false }⟩

theorem notationText_eq (e : KeyEvent) :
    e.notationText = Mark.texts (shownMarks e.modifiers) ++ baseText e.sym := by
  unfold notationText shownMarks markText
  cases e.modifiers.control <;> cases e.modifiers.metaKey <;> cases e.modifiers.alt <;> rfl

theorem heldBy_shownMarks (e : KeyEvent) :
    e.asShown.modifiers.HeldBy (shownMarks e.modifiers) e.sym := by
  constructor
  · simp [asShown, shownMarks]
  · simp [asShown, shownMarks]
  · simp [asShown, shownMarks]
  · simp [asShown, shownMarks, Modifiers.shift_impliedModifiers]
  · rfl

theorem isBase_baseText (sym : KeySym) : IsBase (baseText sym) sym := by
  unfold baseText
  split
  · exact .name (by decide)
  · exact .char _
  · rename_i k
    exact .name (by cases k <;> decide)

/-- A key as it is shown is written with these marks and its base. -/
theorem written_notationText (e : KeyEvent) :
    Written e.notationText (shownMarks e.modifiers) (baseText e.sym) e.sym :=
  ⟨notationText_eq e, isBase_baseText e.sym⟩

/-! ### Blanks in what is shown -/

/-- Of the characters that are blanks only the space can be written, since it has a name; so no
symbol that can be written is shown as a blank. -/
theorem bare_baseText_of_written {s base : Text} {marks : List Mark} {sym : KeySym}
    (hs : Text.Bare s) (h : Written s marks base sym) : Text.Bare (baseText sym) := by
  obtain ⟨rfl, hbase⟩ := h
  rcases hbase with c | hmem
  · have hc : Text.isBlank c = false := hs.last c (by simp)
    by_cases hspace : c = ' '
    · rw [hspace]
      decide
    · have hbase : baseText (.char c) = [c] := by
        unfold baseText
        split
        · rename_i he
          exact absurd (KeySym.char.inj he) hspace
        · rename_i he
          rw [KeySym.char.inj he]
        · rename_i he
          exact nomatch he
      rw [hbase]
      exact ⟨by simp [hc], by simp [hc]⟩
  · have hnames : ∀ p ∈ keyNames, Text.Bare (baseText p.2) := by decide
    exact hnames _ hmem

theorem bare_texts_append {base : Text} (marks : List Mark) (hne : base ≠ [])
    (h : Text.Bare base) : Text.Bare (Mark.texts marks ++ base) := by
  cases marks with
  | nil => exact h
  | cons mark marks =>
    constructor
    · intro c hc
      obtain rfl : mark.letter = c := Option.some.inj hc
      cases mark <;> rfl
    · obtain ⟨c, base, rfl⟩ := List.exists_cons_of_ne_nil hne
      rw [List.getLast?_append_cons]
      exact h.last

/-- **A key that is shown is read** with the modifiers that are shown. -/
theorem ofNotation_notationText {e : KeyEvent} (h : Text.Bare (baseText e.sym)) :
    ofNotation e.notationText = .ok e.asShown := by
  have hbase := isBase_baseText e.sym
  have hbare : Text.Bare e.notationText := by
    rw [notationText_eq]
    exact bare_texts_append _ hbase.ne_nil h
  have htrim : Text.trim e.notationText = e.notationText := by
    have hnone : Text.AllBlank [] := fun c hc => nomatch hc
    simpa using Text.trim_append hnone hnone hbare
  refine ofNotation_eq_ok_iff.mpr ⟨shownMarks e.modifiers, baseText e.sym, ?_, heldBy_shownMarks e⟩
  rw [htrim]
  exact written_notationText e

/-! ### The key that is shown -/

/-- What is shown is the key without shift. -/
theorem normalized_asShown (e : KeyEvent) :
    e.asShown.normalized = normalized ⟨e.sym, { e.modifiers with shift := false }⟩ := by
  unfold normalized asShown impliedModifiers
  cases e.sym <;> simp [KeySym.isChar, Modifiers.none]

/-- Without the shift that characters tell, it is the same key. -/
theorem normalized_asShown_iff (e : KeyEvent) : e.asShown.normalized = e.normalized ↔
    ¬ (e.modifiers.shift = true ∧ ∃ k, e.sym = .named k) := by
  rw [normalized_asShown]
  unfold normalized
  cases hsym : e.sym with
  | char c => simp [KeySym.isChar]
  | named k => simp [KeySym.isChar]

/-- **Keys that are shown keep their meaning, but for the shift of named keys.**  Whatever notation
an event is read from, what shows it is read again, to all keymaps as the same key without shift.
They all bind the two alike exactly when it is not a named key with shift. -/
theorem shown_and_read {s : Text} {e : KeyEvent} (h : ofNotation s = .ok e) :
    ∃ shown, ofNotation e.notationText = .ok shown ∧
      (∀ (keymap : Keymap) command, keymap.binds command shown =
        keymap.binds command ⟨e.sym, { e.modifiers with shift := false }⟩) ∧
      ((∀ (keymap : Keymap) command, keymap.binds command e = keymap.binds command shown) ↔
        ¬ (e.modifiers.shift = true ∧ ∃ k, e.sym = .named k)) := by
  obtain ⟨front, back, -, -, hbare, -⟩ := Text.exists_trim s
  obtain ⟨marks, base, hwritten, -⟩ := ofNotation_eq_ok_iff.mp h
  refine ⟨e.asShown, ofNotation_notationText (bare_baseText_of_written hbare hwritten), ?_, ?_⟩
  · exact Keymap.binds_alike_iff.mpr (normalized_asShown e)
  · rw [Keymap.binds_alike_iff, ← normalized_asShown_iff, eq_comm]

/-- The marks of a space come in another order and without shift, which no keymap notices. -/
theorem shown_and_read_space :
    let e : KeyEvent := ⟨.char ' ', { shift := true, control := true, metaKey := true }⟩
    ofNotation " S-M-C-space".toList = .ok e ∧ e.notationText = "C-M-space".toList ∧
      ∃ shown, ofNotation "C-M-space".toList = .ok shown ∧
        ∀ (keymap : Keymap) command, keymap.binds command e = keymap.binds command shown := by
  intro e
  have hread : ofNotation " S-M-C-space".toList = .ok e := by rfl
  obtain ⟨shown, hshown, -, hsame⟩ := shown_and_read hread
  refine ⟨hread, by decide, shown, hshown, hsame.mpr ?_⟩
  rintro ⟨-, k, hk⟩
  exact nomatch hk

/-- The built-in key for the completion before is shown as the one for the completion after. -/
theorem shift_not_shown :
    let e : KeyEvent := ⟨.named .tab, { shift := true }⟩
    let shown : KeyEvent := ⟨.named .tab, {}⟩
    ofNotation "S-Tab".toList = .ok e ∧ e.notationText = "Tab".toList ∧
      ofNotation e.notationText = .ok shown ∧
      Keymap.builtin.binds .previousCompletion e = true ∧
      Keymap.builtin.binds .previousCompletion shown = false ∧
      Keymap.builtin.binds .complete e = false ∧ Keymap.builtin.binds .complete shown = true := by
  intro e shown
  exact ⟨rfl, by decide, rfl, by decide, by decide, by decide, by decide⟩

end KeyEvent

end KanaKanji

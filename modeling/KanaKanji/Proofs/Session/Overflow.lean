/-
Readings that overflow.

While a reading is composed, a key is a command for it, or it types a character; when the
reading is as long as it may be, it is committed instead and the key typed directly.

* `Situation.composeCommand?_eq_none_iff`: the keys that are no command, by the keymap;
* `Situation.compose_of_overflows`, `compose_of_room`: what the others do.
-/
import KanaKanji.Proofs.Session.Run
import Mathlib.Tactic.SplitIfs

namespace KanaKanji

/-- A key that types a character is pressed. -/
theorem KeyEvent.isRelease_of_printable {event : KeyEvent} (h : event.printable ≠ none) :
    event.isRelease = false := by
  by_cases hr : event.isRelease = true
  · unfold printable at h
    cases hs : event.sym with
    | char c =>
      rw [hs] at h
      simp [hr] at h
    | named k =>
      rw [hs] at h
      exact absurd rfl h
  · simpa using hr

theorem KeyEvent.isRelease_of_eq_some {event : KeyEvent} {c : Char}
    (h : event.printable = some c) : event.isRelease = false := by
  refine isRelease_of_printable ?_
  rw [h]
  exact Option.some_ne_none c

namespace Situation

variable {s : Situation} {event : KeyEvent}

/-! ### The commands of a reading -/

/-- The commands that a key can give to a reading that is composed. -/
def readingCommands : List Command :=
  [.convert, .commit, .delete, .complete, .toggleKatakana, .beginComposition]

theorem composeCommand?_eq_none_iff {b : Buffer} :
    s.composeCommand? b event = none ↔
      ∀ command ∈ readingCommands, s.binds command event = false := by
  unfold composeCommand? readingCommands
  constructor
  · intro h
    split_ifs at h
    simp_all
  · intro h
    simp only [List.forall_mem_cons] at h
    obtain ⟨hconvert, hcommit, hdelete, hcomplete, htoggle, hbegin, -⟩ := h
    rw [hconvert, hcommit, hdelete, hcomplete, htoggle, hbegin]
    rfl

theorem compose_of_convert (h : s.settings.keymap.Gives [.cancel] .convert event) (b : Buffer) :
    s.compose b event = s.convert b := by
  have hconvert : s.binds .convert event = true := h.bound
  rw [compose, composeCommand?, if_pos hconvert]

/-! ### Typed characters -/

/-- The key types a character for which the reading has no room. -/
def Overflows (s : Situation) (b : Buffer) (event : KeyEvent) : Prop :=
  (∀ command ∈ readingCommands, s.binds command event = false) ∧
    event.printable ≠ none ∧ s.isFull b = true

/-- A reading without room is committed, and the key typed directly. -/
theorem compose_of_overflows {b : Buffer} (h : s.Overflows b event) :
    s.compose b event = (s.direct [] event).after (s.render (b.flush s.table).text) := by
  obtain ⟨hfree, hp, hfull⟩ := h
  obtain ⟨c, hc⟩ := Option.ne_none_iff_exists'.mp hp
  unfold compose
  rw [composeCommand?_eq_none_iff.mpr hfree, hc]
  dsimp only
  rw [if_pos hfull]
  rfl

/-- Where there is room, the key types its character. -/
theorem compose_of_room {b : Buffer} {c : Char}
    (hfree : ∀ command ∈ readingCommands, s.binds command event = false)
    (hc : event.printable = some c) (hroom : s.isFull b = false) :
    s.compose b event = s.typeReading b c := by
  unfold compose
  rw [composeCommand?_eq_none_iff.mpr hfree, hc]
  dsimp only
  rw [hroom, if_neg Bool.false_ne_true]

end Situation

end KanaKanji

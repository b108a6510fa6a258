/-
Conversions that typed characters start.

A character starts a conversion when it completes the okurigana, or when with it the reading
ends in a keyword.  The buffer is given up then, and what has been typed is kept in the key.
Complete okurigana leave nothing pending.  A keyword may: when the character made the tail
resolve and itself waits in the place of the tail (`RomajiTable.Displaces`), it is pending
behind the keyword.  Unlike the command keys, which flush the tail first, the start of the
conversion leaves it out of the key, so that it is lost.

* `Session.typed_conversion_keeps_iff`: when the key spells all that was typed, and what is lost
  when it does not;
* `Session.typed_conversion_drops`: a letter that is lost.
-/
import KanaKanji.Proofs.Romaji.Tail
import KanaKanji.Proofs.Session.Lookup
import KanaKanji.Romaji.Builtin
import KanaKanji.Settings.Builtin

namespace KanaKanji

/-! ### A character in a reading -/

/-- A character that leaves the okurigana closed goes to the stem. -/
theorem Buffer.type_of_okuri_eq_none {table : RomajiTable} {b : Buffer} {c : Char}
    (h : (b.type table c).okuri = none) :
    b.type table c =
      { kana := b.kana ++ (table.feed b.tail c).emitted, tail := (table.feed b.tail c).tail } := by
  unfold type at h ⊢
  split at h
  · exact nomatch h
  · rename_i hcapital
    rw [if_neg hcapital]
    unfold append at h ⊢
    cases hokuri : b.okuri with
    | none => rfl
    | some okuri =>
      rw [hokuri] at h
      exact nomatch h

namespace Situation

variable {s : Situation} {event : KeyEvent}

theorem Feeds.eq_ite {b old : Buffer} {c : Char} (h : s.Feeds event b old c) :
    old = if s.isFull b then .empty else b := by
  rcases h.into with ⟨hroom, rfl⟩ | ⟨hfull, rfl, -⟩
  · rw [hroom, if_neg Bool.false_ne_true]
  · rw [if_pos hfull]

/-- A reading that a character starts the conversion of has a tail when the character took the
place of the tail before it, and only then. -/
theorem LooksUp.tail_fed {b fed : Buffer} {key : ConversionKey} {c : Char}
    (hp : event.printable = some c) (hconvert : s.binds .convert event = false)
    (h : s.LooksUp event (.composing b) (.composing fed) (.conversion key)) :
    let old := if s.isFull b then Buffer.empty else b
    fed = old.type s.table c ∧
      (fed.okuri = none → s.table.Displaces old.tail c → fed.tail = [c.toLower]) ∧
      (¬ (fed.okuri = none ∧ s.table.Displaces old.tail c) → fed.tail = []) := by
  intro old
  cases h with
  | convert key kana =>
    have hbound : s.binds .convert event = true := key.bound
    rw [hconvert] at hbound
    exact nomatch hbound
  | @okurigana b before d feeds complete =>
    obtain rfl := Option.some.inj (feeds.printable.symm.trans hp)
    obtain rfl : before = old := feeds.eq_ite
    -- complete okurigana are open, and nothing is pending behind them
    have hokuri := Buffer.okuri_ne_none_of_okuriComplete complete
    have htail := List.isEmpty_iff.mp (Bool.and_eq_true_iff.mp complete).1
    exact ⟨rfl, fun hnone => absurd hnone hokuri, fun _ => htail⟩
  | @keyword b before d key feeds grows okuri start =>
    obtain rfl := Option.some.inj (feeds.printable.symm.trans hp)
    obtain rfl : before = old := feeds.eq_ite
    have htyped := Buffer.type_of_okuri_eq_none okuri
    -- the kana that ended the keyword left the tail
    have hemitted : (s.table.feed old.tail d).emitted ≠ [] := by
      intro hnil
      rw [htyped, hnil, List.append_nil] at grows
      exact Nat.lt_irrefl _ grows
    obtain ⟨hdisplaced, hcleared⟩ := RomajiTable.tail_feed_of_emitted hemitted
    have htail : (old.type s.table d).tail = (s.table.feed old.tail d).tail := by
      rw [htyped]
    refine ⟨rfl, fun _ hd => htail.trans (hdisplaced hd), fun hn => ?_⟩
    exact htail.trans (hcleared fun hd => hn ⟨okuri, hd⟩)

end Situation

/-! ### Sessions -/

namespace Session

/-- **A conversion that a typed character starts keeps what has been typed, but for a letter
that took the place of the tail.**  Where a key without a command starts a conversion, the key
that is looked up spells the stem and the okurigana as they are after the character.  It spells
what is pending too, unless a keyword ended the reading and the character displaced the tail;
then the character is pending, and lost.  No key leads to candidates or to a registration that
does not start a conversion in this way. -/
theorem typed_conversion_keeps_iff (session : Session) {depth : Nat} {b : Buffer}
    {event : KeyEvent} {c : Char}
    (hpart : session.context.segment.within? depth = some (.composing b))
    (hp : event.printable = some c)
    (hfree : ∀ command, session.context.settings.keymap.binds command event = false) :
    let s := session.situation.deeper depth
    let pressed := session.press event
    let old := if s.isFull b then Buffer.empty else b
    (∀ part, pressed.context.segment.within? depth = some part → part.lookedUp = true →
      ∃ fed key, s.LooksUp event (.composing b) (.composing fed) (.conversion key)) ∧
    ∀ fed key, s.LooksUp event (.composing b) (.composing fed) (.conversion key) →
      fed = old.type s.table c ∧
      pressed.context.segment.within? depth = some (s.conversion key .kana) ∧
      key.text = fed.text ∧
      (fed.tail = [] ∨ fed.tail = [c.toLower]) ∧
      (key.text = fed.text ++ fed.tail ↔
        ¬ (fed.okuri = none ∧ s.table.Displaces old.tail c)) := by
  intro s pressed old
  have hconvert : s.binds .convert event = false := hfree .convert
  refine ⟨fun part hafter hlooked => ?_, fun fed key h => ?_⟩
  · obtain ⟨reading, lookup, h⟩ :=
      exists_looksUp_of_press hpart (Or.inl rfl) hafter hlooked
    cases h with
    | convert key kana => exact ⟨_, _, .convert key kana⟩
    | complete key okuri => exact nomatch (hfree .complete).symm.trans key.bound
    | okurigana feeds complete => exact ⟨_, _, .okurigana feeds complete⟩
    | keyword feeds grows okuri start => exact ⟨_, _, .keyword feeds grows okuri start⟩
  · obtain ⟨hfed, hdisplaced, hcleared⟩ := h.tail_fed hp hconvert
    have htext : key.text = fed.text := h.text_key
    refine ⟨hfed, within?_press_of_looksUp hpart h, htext, ?_⟩
    by_cases hd : fed.okuri = none ∧ s.table.Displaces old.tail c
    · have htail : fed.tail = [c.toLower] := hdisplaced hd.1 hd.2
      refine ⟨Or.inr htail, iff_of_false (fun hall => ?_) fun hn => hn hd⟩
      -- the text cannot be longer than itself
      rw [htext, htail] at hall
      have hlength := congrArg List.length hall
      simp at hlength
    · have htail : fed.tail = [] := hcleared hd
      refine ⟨Or.inl htail, iff_of_true ?_ hd⟩
      rw [htext, htail, List.append_nil]

/-- Readings that か with 蚊 is for, and ん as the only keyword. -/
def endingInN : Session :=
  start { Settings.builtin with autoStartKeywords := ["ん".toList] } RomajiTable.builtin [0]
    [Dictionary.fixed Dictionary.systemName [("か".toList, [{ surface := "蚊".toList }])]]

/-- かん typed with a second n: nothing is lost. -/
theorem typed_conversion_keeps_kan :
    let session := endingInN.pressAll ("Kan".toList.map KeyEvent.ofChar)
    let b : Buffer := { kana := "か".toList, tail := "n".toList }
    let fed : Buffer := { kana := "かん".toList }
    let key : ConversionKey := { yomi := "か".toList, suffix := "ん".toList }
    session.context.segment.within? 0 = some (.composing b) ∧
      (session.press (KeyEvent.ofChar 'n')).context.preedit = "▼蚊ん".toList ∧
      key.text = fed.text ++ fed.tail := by
  intro session b fed key
  have hpart : session.context.segment.within? 0 = some (.composing b) := by decide +kernel
  have hfree : ∀ command,
      session.context.settings.keymap.binds command (KeyEvent.ofChar 'n') = false := by
    decide +kernel
  have hfeeds : (session.situation.deeper 0).Feeds (KeyEvent.ofChar 'n') b b 'n' :=
    ⟨by decide +kernel, hfree _, fun command _ => hfree command, Or.inl ⟨by decide +kernel, rfl⟩⟩
  have htyped : b.type (session.situation.deeper 0).table 'n' = fed := by decide +kernel
  have hlooks : (session.situation.deeper 0).LooksUp (KeyEvent.ofChar 'n') (.composing b)
      (.composing (b.type (session.situation.deeper 0).table 'n')) (.conversion key) :=
    .keyword hfeeds (by decide +kernel) (by decide +kernel) (by decide +kernel)
  rw [htyped] at hlooks
  obtain ⟨-, -, -, -, hiff⟩ :=
    (typed_conversion_keeps_iff session hpart rfl hfree).2 fed key hlooks
  -- the table continues n with n, so that nothing takes its place
  exact ⟨hpart, by decide +kernel, hiff.mpr (by decide +kernel)⟩

/-- かん typed with the k of the next mora: the k is lost, and what should be か is あ. -/
theorem typed_conversion_drops :
    let session := endingInN.pressAll ("Kan".toList.map KeyEvent.ofChar)
    let b : Buffer := { kana := "か".toList, tail := "n".toList }
    let fed := b.type session.context.table 'k'
    let key : ConversionKey := { yomi := "か".toList, suffix := "ん".toList }
    let pressed := session.press (KeyEvent.ofChar 'k')
    session.context.segment = .composing b ∧
      (∀ command, session.context.settings.keymap.binds command (KeyEvent.ofChar 'k') = false) ∧
      fed = { kana := "かん".toList, tail := "k".toList } ∧
      (pressed.context.segment.selection?.map fun selection => selection.key) = some key ∧
      key.text ≠ fed.text ++ fed.tail ∧
      (pressed.pressAll ("a".toList.map KeyEvent.ofChar)).context.output = "蚊んあ".toList := by
  decide +kernel

end Session

end KanaKanji

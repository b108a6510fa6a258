/-
Headwords of inflected words and of plain ones.

A reading is looked up with a class letter behind it when it has okurigana, and without one when
it has none.  Two things get in the way: a letter that became no kana and stands at the end of a
reading looks like a class letter, and some okurigana have no class letter.

* `Situation.LooksUp.inflected_iff`: when a reading without okurigana is looked up as an inflected
  word;
* `ConversionKey.headword_eq_plain_iff`: when a reading with okurigana is looked up as a plain one;
* `Session.headwords_apart`: both for every session with the built-in table, and that all that is
  listed and written then is of the headword that was looked up.

Design notes: a keyword starts no conversion of a reading with letters in it, so that only the
convert key can mistake a letter.  It flushes the tail first, which makes ん of a pending n and
leaves any other tail of the built-in table as it is.
-/
import KanaKanji.Proofs.Dictionary.Headword
import KanaKanji.Proofs.Romaji.PrefixFree
import KanaKanji.Proofs.Session.Writes
import KanaKanji.Settings.Builtin

namespace KanaKanji

/-! ### Readings that end in a letter -/

namespace Buffer

variable {b : Buffer}

/-- The reading ends, with its tail, in a letter behind a character that is not ASCII.  A pending
n is no letter, but ん. -/
def EndsInLetter (b : Buffer) : Prop :=
  b.tail ≠ ['n'] ∧ isOkuriHeadword (b.kana ++ b.tail) = true

instance (b : Buffer) : Decidable b.EndsInLetter :=
  inferInstanceAs (Decidable (_ ∧ _))

/-- Flushing a reading without okurigana leaves the letter at its end, and makes no other. -/
theorem isOkuriHeadword_flush (htail : RomajiTable.builtin.IsTail b.tail)
    (h : (b.flush RomajiTable.builtin).okuriText = []) :
    isOkuriHeadword (b.flush RomajiTable.builtin).kana = true ↔ b.EndsInLetter := by
  have hflush := RomajiTable.prefixFree_builtin.flush_of_isTail htail
  unfold EndsInLetter
  cases hokuri : b.okuri with
  | none =>
    have hkana : (b.flush RomajiTable.builtin).kana
        = b.kana ++ RomajiTable.builtin.flush b.tail := by
      simp [flush, append, hokuri]
    rw [hkana, hflush]
    by_cases hn : b.tail = ['n']
    · rw [if_pos hn, isOkuriHeadword_concat_of_not_lower (by decide)]
      exact iff_of_false Bool.false_ne_true fun h => h.1 hn
    · rw [if_neg hn]
      exact ⟨fun h => ⟨hn, h⟩, fun h => h.2⟩
  | some okuri =>
    have hkana : (b.flush RomajiTable.builtin).kana = b.kana := by
      simp [flush, append, hokuri]
    have hnil : RomajiTable.builtin.flush b.tail = [] := by
      have hall : okuri ++ RomajiTable.builtin.flush b.tail = [] := by
        simpa [flush, append, okuriText, hokuri] using h
      exact (List.append_eq_nil_iff.mp hall).2
    -- okurigana that are still empty have nothing pending
    have hempty : b.tail = [] := by
      rw [hflush] at hnil
      split at hnil
      · exact absurd hnil (List.cons_ne_nil _ _)
      · exact hnil
    rw [hkana, hempty, List.append_nil]
    exact ⟨fun h => ⟨(List.cons_ne_nil _ _).symm, h⟩, fun h => h.2⟩

end Buffer

namespace Situation

variable {s : Situation} {event : KeyEvent}

/-- A keyword starts no conversion of a reading with letters. -/
theorem not_isAlpha_of_autoStartKey? {b : Buffer} {key : ConversionKey}
    (h : s.autoStartKey? b = some key) : ∀ c ∈ key.yomi, c.isAlpha = false := by
  obtain ⟨keyword, -, hkey⟩ := Option.bind_eq_some_iff.mp h
  dsimp only at hkey
  split at hkey
  · exact nomatch hkey
  · rename_i hletters
    obtain rfl := Option.some.inj hkey
    rw [Bool.not_eq_true, Bool.or_eq_false_iff] at hletters
    intro c hc
    simpa using List.any_eq_false.mp hletters.2 c hc

/-- **A reading without okurigana is looked up as an inflected word** when the convert key finds a
letter at its end, and only then. -/
theorem LooksUp.inflected_iff {b : Buffer} {reading : Segment} {key : ConversionKey}
    (htable : s.table = RomajiTable.builtin) (htail : s.table.IsTail b.tail)
    (h : s.LooksUp event (.composing b) reading (.conversion key)) (hokuri : key.okuri = []) :
    isOkuriHeadword key.headword = true ↔
      s.binds .convert event = true ∧ b.EndsInLetter := by
  rw [ConversionKey.headword_of_no_okuri hokuri, isOkuriHeadword_numericKey]
  cases h with
  | convert given kana =>
    have hbound : s.binds .convert event = true := given.bound
    rw [htable] at htail hokuri
    rw [hbound, htable]
    exact (Buffer.isOkuriHeadword_flush htail hokuri).trans (and_iff_right rfl).symm
  | okurigana feeds complete =>
    -- complete okurigana are some
    have hnonempty := (Bool.and_eq_true_iff.mp complete).2
    rw [show Buffer.okuriText _ = [] from hokuri] at hnonempty
    exact nomatch hnonempty
  | keyword feeds grows okuri start =>
    have hfree : s.binds .convert event = false := feeds.free .convert (by decide)
    rw [hfree, isOkuriHeadword_of_not_alpha (not_isAlpha_of_autoStartKey? start)]
    exact iff_of_false Bool.false_ne_true fun h => nomatch h.1

theorem candidates_of_conversion {key : ConversionKey} {origin : Origin} {selection : Selection}
    (h : s.conversion key origin = .selecting selection) :
    selection.candidates = s.dictionaries.candidates key := by
  unfold conversion at h
  split at h
  · rename_i shown hfirst
    obtain rfl := Segment.selecting.inj h
    obtain ⟨-, -, hcandidates, -⟩ := Selection.first?_eq_some hfirst
    exact hcandidates
  · split at h
    · exact nomatch h
    · cases origin <;> exact nomatch h

/-- What a conversion lists is listed under the headword of the key. -/
theorem entries_of_conversion {key : ConversionKey} {origin : Origin} {selection : Selection}
    (h : s.conversion key origin = .selecting selection) :
    selection.candidates.map Candidate.entry = s.dictionaries.lookup key.headword := by
  rw [candidates_of_conversion h, Layered.candidates, List.map_map]
  exact List.map_id _

end Situation

/-- The key that candidates are shown for, or that a word is registered for. -/
def Segment.converted? : Segment → Option ConversionKey
  | selecting selection => some selection.key
  | registering key _ _ _ => some key
  | _ => none

/-! ### Sessions -/

namespace Session

/-- What is written while a key is converted is written to its headword. -/
theorem reading_of_writes {session : Session} {depth : Nat} {part : Segment}
    {key : ConversionKey} {event : KeyEvent} {w : Write} (hsession : session.WellFormed)
    (hpart : session.context.segment.within? depth = some part)
    (hkey : part.converted? = some key) (h : session.Writes event depth w) :
    w.reading = key.headword := by
  obtain ⟨-, writing, hwriting, hwrites⟩ := h
  obtain rfl : part = writing := Option.some.inj (hpart.symm.trans hwriting)
  have hshown : ∀ {selection commands}, part.Shows selection commands →
      selection.current.key = key := by
    intro selection commands shown
    cases shown with
    | selecting =>
      obtain rfl := Option.some.inj hkey
      obtain ⟨-, -, -, hconversion⟩ :=
        Segment.WellFormed.clause_of_within? hsession hpart
      exact hconversion.keys _ selection.current_mem
    | completing => exact nomatch hkey
  cases hwrites with
  | commit shown => exact congrArg ConversionKey.headword (hshown shown)
  | type shown => exact congrArg ConversionKey.headword (hshown shown)
  | purge shown => exact congrArg ConversionKey.headword (hshown shown)
  | confirm =>
    obtain rfl := Option.some.inj hkey
    rfl

/-- **Headwords of inflected words and of plain ones are apart, but for stray letters and okurigana
without a class.**  In a session with the built-in table, where a reading is composed, only a key
that has it looked up leads to candidates or to a registration.

* Without okurigana it is looked up as an inflected word when the convert key finds a letter at its
  end, and only then.
* With okurigana it is looked up as a plain word when they start with no hiragana letter or with
  ゐ, ゑ, ゕ or ゖ, and otherwise with a class letter behind the plain headword.
* What is looked up is what is listed, and what is learned, purged and registered as long as the
  key is converted. -/
theorem headwords_apart (settings : Settings) (layers : Layers) (shelf : Shelf)
    (requests : List Request) {depth : Nat} {b : Buffer} {event : KeyEvent} :
    let session := (start settings RomajiTable.builtin layers shelf).run requests
    let s := session.situation.deeper depth
    let pressed := session.press event
    session.context.segment.within? depth = some (.composing b) →
    (∀ part, pressed.context.segment.within? depth = some part → part.lookedUp = true →
      ∃ reading lookup, s.LooksUp event (.composing b) reading lookup) ∧
    ∀ reading key, s.LooksUp event (.composing b) reading (.conversion key) →
      (key.okuri = [] → (isOkuriHeadword key.headword = true ↔
        s.binds .convert event = true ∧ b.EndsInLetter)) ∧
      (∀ c rest, key.okuri = c :: rest →
        (key.headword = key.plain.headword ↔
          codeWithin c 0x3041 0x3096 = false ∨ c ∈ "ゐゑゕゖ".toList) ∧
        (key.headword ≠ key.plain.headword →
          ∃ letter, letter.isLower = true ∧ key.headword = key.plain.headword ++ [letter])) ∧
      pressed.context.segment.within? depth = some (s.conversion key .kana) ∧
      (∀ selection, s.conversion key .kana = .selecting selection →
        selection.candidates.map Candidate.entry = s.dictionaries.lookup key.headword) ∧
      ∀ later part, (pressed.run later).context.segment.within? depth = some part →
        part.converted? = some key →
          ∀ other w, (pressed.run later).Writes other depth w → w.reading = key.headword := by
  intro session s pressed hpart
  have hsession : session.WellFormed :=
    (wellFormed_start settings RomajiTable.builtin layers shelf).run requests
  have htable : s.table = RomajiTable.builtin :=
    (run_frame (start settings RomajiTable.builtin layers shelf) requests).2.1
  -- only the beginning of a key can be pending
  have htail : s.table.IsTail b.tail :=
    (Segment.WellFormed.clause_of_within? hsession hpart).1
  refine ⟨fun part => exists_looksUp_of_press hpart (Or.inl rfl), fun reading key hlooks => ?_⟩
  refine ⟨hlooks.inflected_iff htable htail, fun c rest hokuri => ?_, ?_, ?_, ?_⟩
  · exact ⟨ConversionKey.headword_eq_plain_iff hokuri,
      ConversionKey.exists_headword_eq_concat hokuri⟩
  · have hafter := within?_press_of_looksUp hpart hlooks
    have horigin : reading.origin = .kana := by
      cases hlooks <;> rfl
    rw [hafter, Situation.lookUp, horigin]
  · exact fun selection => Situation.entries_of_conversion
  · intro later part hlater hkey other w hwrites
    have hpressed : pressed.WellFormed := wellFormed_serve hsession (.press event)
    exact reading_of_writes (hpressed.run later) hlater hkey hwrites

/-- 蚊 for か, and 書 for the inflected words of かk. -/
def kaWords : Shelf :=
  [Dictionary.fixed Dictionary.systemName
    [("か".toList, [{ surface := "蚊".toList }]), ("かk".toList, [{ surface := "書".toList }])]]

/-- 書く is looked up as an inflected word. -/
theorem headwords_apart_kaku :
    let session := (start Settings.builtin RomajiTable.builtin [0] kaWords).run
      ("KaK".toList.map fun c => .press (KeyEvent.ofChar c))
    let b : Buffer := { kana := "か".toList, okuri := some [], tail := "k".toList }
    let key : ConversionKey := { yomi := "か".toList, okuri := "く".toList }
    session.context.segment.within? 0 = some (.composing b) ∧
      (∃ letter, letter.isLower = true ∧ key.headword = key.plain.headword ++ [letter]) ∧
      (session.press (KeyEvent.ofChar 'u')).context.preedit = "▼書く".toList := by
  intro session b key
  have hpart : session.context.segment.within? 0 = some (.composing b) := by decide +kernel
  have hfeeds : (session.situation.deeper 0).Feeds (KeyEvent.ofChar 'u') b b 'u' :=
    ⟨by decide +kernel, by decide +kernel, by decide +kernel, Or.inl ⟨by decide +kernel, rfl⟩⟩
  have hkey : (b.type (session.situation.deeper 0).table 'u').key = key := by decide +kernel
  have hlooks := Situation.LooksUp.okurigana hfeeds (by decide +kernel)
  rw [hkey] at hlooks
  obtain ⟨-, hokuri, -⟩ := (headwords_apart _ _ _ _ hpart).2 _ _ hlooks
  exact ⟨hpart, (hokuri 'く' [] rfl).2 (by decide +kernel), by decide +kernel⟩

/-- か with a k that no vowel follows is converted to 書, as an inflected word, and か with the
okurigana ゕ to 蚊, as a plain one. -/
theorem headwords_mix :
    let session := start Settings.builtin RomajiTable.builtin [0] kaWords
    let stray := session.pressAll ("Kak".toList.map KeyEvent.ofChar)
    let small := session.pressAll ("KaXk".toList.map KeyEvent.ofChar)
    let ofStray : ConversionKey := { yomi := "かk".toList }
    let ofSmall : ConversionKey := { yomi := "か".toList, okuri := "ゕ".toList }
    stray.context.segment = .composing { kana := "か".toList, tail := "k".toList } ∧
      (stray.press (KeyEvent.ofChar ' ')).context.segment.selection?.map Selection.current
        = some ⟨ofStray, { surface := "書".toList }⟩ ∧
      ofStray.okuri = [] ∧ isOkuriHeadword ofStray.headword = true ∧
      small.context.segment
        = .composing { kana := "か".toList, okuri := some [], tail := "xk".toList } ∧
      (small.press (KeyEvent.ofChar 'a')).context.segment.selection?.map Selection.current
        = some ⟨ofSmall, { surface := "蚊".toList }⟩ ∧
      ofSmall.okuri ≠ [] ∧ ofSmall.headword = ofSmall.plain.headword := by
  decide +kernel

end Session

end KanaKanji

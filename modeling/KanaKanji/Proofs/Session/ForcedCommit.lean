/-
Readings that are committed because they are full.

A reading that has as many kana as it may have is committed before the next key, with its
tail resolved as if no key followed, and the rest of the text is typed directly.  So a text
that is composed and committed is cut in two (`RomajiTable.cut`), and each piece is converted
by itself.

* `Session.output_composed`: what is committed in total, and when it is the conversion of
  the whole text.

The cut can go through the middle of a mora: of `tta`, composed with room for one kana, the
っ is full while the second `t` waits for its vowel (`Session.output_composed_tta`).
-/
import KanaKanji.Proofs.Session.PlainTyping
import KanaKanji.Romaji.Builtin

namespace KanaKanji

namespace Session

variable (session : Session) {events : List KeyEvent} {commit : KeyEvent} {text : Text}

/-! ### Up to the commit key -/

/-- A text that is typed directly, and the commit key. -/
theorem output_direct (hmode : session.context.mode.isLatin = false)
    (h : List.Forall₂ session.context.settings.keymap.Types events text)
    (hcommit : session.context.settings.keymap.Commits commit) (tail committed : Text) :
    ((session.commits (.direct tail) committed).pressAll (events ++ [commit])).context.output =
      session.context.output ++ committed ++
        session.context.mode.render (session.context.table.convertFrom tail text) := by
  rw [pressAll_append, pressAll_direct session hmode h]
  refine (output_press_commits_direct (session.commits _ _) rfl hmode
    hcommit.gives_direct).trans ?_
  rw [RomajiTable.convertFrom, InputMode.render_append]
  simp only [commits, List.append_assoc]

/-- A text that is composed behind some kana and a tail, and the commit key: the keys up to
the cut go on with the tail, those after it start afresh. -/
theorem output_reading (hauto : session.context.settings.autoStartKeywords = [])
    (hmode : session.context.mode = .hiragana)
    (h : List.Forall₂ session.context.settings.keymap.Types events text)
    (hcommit : session.context.settings.keymap.Commits commit) (kana tail : Text) :
    let pieces := session.context.table.cut
      (session.context.settings.maxCompositionLength - kana.length) tail text
    ((session.commits (.composing (.plain kana tail)) []).pressAll
        (events ++ [commit])).context.output =
      session.context.output ++ kana ++ session.context.table.convertFrom tail pieces.1 ++
        session.context.table.convert pieces.2 := by
  have hkana : session.context.mode.isLatin = false := by
    rw [hmode]
    rfl
  have hrender : ∀ kana, session.context.mode.render kana = kana := by
    rw [hmode]
    exact fun _ => rfl
  induction h generalizing kana tail with
  | nil =>
    have hpress := press_commits_reading
      (session.commits (.composing (.plain kana tail)) []) rfl hcommit.gives_reading
    rw [List.nil_append, pressAll_cons, hpress, commits_commits]
    show session.context.output ++ ([] ++ session.context.mode.render _) = _
    rw [hrender]
    simp [commits, RomajiTable.convert_eq_convertFrom]
  | @cons event c events text hkey hkeys ih =>
    intro pieces
    by_cases hfull : session.context.settings.maxCompositionLength ≤ kana.length
    · -- the reading is committed, and the text typed directly from here on
      have hpieces : pieces = ([], c :: text) := by
        show session.context.table.cut _ tail (c :: text) = _
        rw [Nat.sub_eq_zero_of_le hfull, RomajiTable.cut_zero]
      have hpress := press_full
        (session.commits (.composing (.plain kana tail)) []) rfl hkana hkey hfull
      rw [List.cons_append, pressAll_cons, hpress, commits_commits]
      refine (output_direct session hkana hkeys hcommit _ _).trans ?_
      rw [hpieces, RomajiTable.convert_eq_convertFrom, RomajiTable.convertFrom_cons]
      simp [commits, hrender]
    · -- the key goes to the reading, which has less room then
      have hroom : session.context.settings.maxCompositionLength - kana.length ≠ 0 := by omega
      have hpieces : pieces = _ := RomajiTable.cut_cons hroom tail c text
      have hpress := press_reading
        (session.commits (.composing (.plain kana tail)) []) rfl hkey
        (Nat.lt_of_not_le hfull) (Situation.autoStartKey?_eq_none hauto _)
      rw [List.cons_append, pressAll_cons, hpress, commits_commits]
      refine (ih _ _).trans ?_
      show _ = session.context.output ++ kana ++
        session.context.table.convertFrom tail pieces.1 ++ session.context.table.convert pieces.2
      have hleft : ∀ emitted : Text,
          session.context.settings.maxCompositionLength - (kana ++ emitted).length =
            session.context.settings.maxCompositionLength - kana.length - emitted.length := by
        intro emitted
        rw [List.length_append]
        omega
      rw [hpieces, hleft]
      simp only [RomajiTable.convertFrom_cons, List.append_assoc]
      rfl

/-! ### The whole text -/

/-- **A text that is composed and committed is converted in two pieces.**  They are the keys
up to when the reading is full and the keys after them.  So the conversion of the text is
committed exactly when it makes no difference to the second piece whether the tail of the
first is resolved or carried over, and in particular when the next key does not go with the
tail. -/
theorem output_composed {opening : KeyEvent}
    (hauto : session.context.settings.autoStartKeywords = [])
    (hidle : session.context.segment = .idle) (hmode : session.context.mode = .hiragana)
    (hopening : session.context.settings.keymap.Begins opening)
    (h : List.Forall₂ session.context.settings.keymap.Types events text)
    (hcommit : session.context.settings.keymap.Commits commit) :
    let table := session.context.table
    let pieces := table.cut session.context.settings.maxCompositionLength [] text
    let tail := (table.feedAll [] pieces.1).2
    let output := (session.pressAll (opening :: (events ++ [commit]))).context.output
    pieces.1 ++ pieces.2 = text ∧
      output = session.context.output ++ table.convert pieces.1 ++ table.convert pieces.2 ∧
      (output = session.context.output ++ table.convert text ↔
        table.flush tail ++ table.convert pieces.2 = table.convertFrom tail pieces.2) ∧
      ((∀ key ∈ pieces.2.head?, ¬ table.Joins tail key) →
        output = session.context.output ++ table.convert text) := by
  intro table pieces tail output
  have hkana : session.context.mode.isLatin = false := by
    rw [hmode]
    rfl
  have hwhole : pieces.1 ++ pieces.2 = text := RomajiTable.cut_append _ [] text
  have htotal : output =
      session.context.output ++ table.convert pieces.1 ++ table.convert pieces.2 := by
    have hopen : session.press opening = session.commits (.composing (.plain [] [])) [] := by
      rw [press_begins session hidle hkana hopening, RomajiTable.flush_nil, InputMode.render_nil]
    have hreading := output_reading session hauto hmode h hcommit [] []
    rw [← hopen, List.append_nil] at hreading
    exact hreading
  have hiff : output = session.context.output ++ table.convert text ↔
      table.convert pieces.1 ++ table.convert pieces.2 = table.convert text := by
    rw [htotal, List.append_assoc]
    exact List.append_right_inj _
  refine ⟨hwhole, htotal, ?_, ?_⟩
  · rw [hiff, ← hwhole]
    exact RomajiTable.convert_append_iff pieces.1 pieces.2
  · intro hjoins
    rw [hiff, ← hwhole]
    exact RomajiTable.convert_append_of_not_joins hjoins

/-- A fresh session with room for so many kana in a reading, and without keywords. -/
def withRoom (limit : Nat) : Session :=
  start { Settings.builtin with maxCompositionLength := limit, autoStartKeywords := [] }
    RomajiTable.builtin [] []

/-- The return key. -/
def returnKey : KeyEvent := ⟨.named .enter, .none⟩

theorem output_composed_kanji :
    let session := withRoom 1
    let table := session.context.table
    let opening := KeyEvent.ofChar 'Q'
    let text := "kanji".toList
    let events := text.map KeyEvent.ofChar
    let pieces := table.cut session.context.settings.maxCompositionLength [] text
    let tail := (table.feedAll [] pieces.1).2
    let output := (session.pressAll (opening :: (events ++ [returnKey]))).context.output
    session.context.settings.autoStartKeywords = [] ∧
      session.context.segment = .idle ∧ session.context.mode = .hiragana ∧
      session.context.settings.keymap.Begins opening ∧
      List.Forall₂ session.context.settings.keymap.Types events text ∧
      session.context.settings.keymap.Commits returnKey ∧
      pieces = ("ka".toList, "nji".toList) ∧
      output = session.context.output ++ table.convert text ∧
      (output = session.context.output ++ table.convert text ↔
        table.flush tail ++ table.convert pieces.2 = table.convertFrom tail pieces.2) := by
  intro session table opening text events pieces tail output
  have hauto : session.context.settings.autoStartKeywords = [] := by decide +kernel
  have hidle : session.context.segment = .idle := by decide +kernel
  have hmode : session.context.mode = .hiragana := by decide +kernel
  have hopening : session.context.settings.keymap.Begins opening :=
    ⟨by decide +kernel, by decide +kernel, by decide +kernel⟩
  have htyped : List.Forall₂ session.context.settings.keymap.Types events text := by
    decide +kernel
  have hcommit : session.context.settings.keymap.Commits returnKey :=
    ⟨rfl, by decide +kernel, by decide +kernel⟩
  have hpieces : pieces = ("ka".toList, "nji".toList) := by decide +kernel
  obtain ⟨-, -, hiff, hjoins⟩ :=
    output_composed session hauto hidle hmode hopening htyped hcommit
  -- nothing waits at the cut
  have htail : tail = [] := by decide +kernel
  have houtput := hjoins fun key _ hjoin => hjoin.1 htail
  exact ⟨hauto, hidle, hmode, hopening, htyped, hcommit, hpieces, houtput, hiff⟩

/-- Room for one kana cuts the second mora of `tta` in two; with more room it does not. -/
theorem output_composed_tta :
    let output := fun limit => ((withRoom limit).pressAll
      ("Qtta".toList.map KeyEvent.ofChar ++ [returnKey])).context.output
    output 1 = "っtあ".toList ∧ output 2 = "った".toList ∧
      RomajiTable.builtin.convert "tta".toList = "った".toList := by
  decide +kernel

end Session

end KanaKanji

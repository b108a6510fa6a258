/-
Katakana are a form in which kana are shown, and nothing more.

A session in hiragana and one in katakana that are otherwise in the same state are alike.  As long
as no key changes the form, and no registration is open that would take committed kana for its
word, they stay alike: they answer the keys in the same way, go through the same segments and write
the same to their dictionaries, and what they commit differs by its form.

* `Situation.alike_handle`: one key, whatever segment receives it;
* `Session.katakana_display`: any number of keys.

Design notes: `Situation.inKatakana` replaces the input mode alone.  So what the handlers branch on
is the same on both sides by definition, and a handler is followed branch by branch
(`Outcome.alike_ite`); only where kana are committed is there something to show
(`Situation.katakana_render`).
-/
import KanaKanji.Proofs.Session.Registration
import Mathlib.Data.List.Infix

namespace KanaKanji

/-! ### Katakana -/

/-- What is in katakana has no katakana twin. -/
theorem hasKatakanaTwin_katakanaChar (c : Char) : hasKatakanaTwin (katakanaChar c) = false := by
  cases h : hasKatakanaTwin c with
  | false => rw [katakanaChar, h, if_neg Bool.false_ne_true, h]
  | true =>
    have hcode := toNat_katakanaChar h
    -- the twins lie between the letters and marks that have one, or behind them
    simp only [hasKatakanaTwin, codeWithin, hcode, Bool.or_eq_true, Bool.and_eq_true,
      decide_eq_true_eq, Bool.or_eq_false_iff, Bool.and_eq_false_iff, decide_eq_false_iff_not]
      at h ⊢
    omega

theorem katakana_katakana (kana : Text) : katakana (katakana kana) = katakana kana := by
  rw [katakana, katakana, List.map_map]
  refine List.map_congr_left fun c _ => ?_
  show katakanaChar (katakanaChar c) = katakanaChar c
  rw [katakanaChar, hasKatakanaTwin_katakanaChar, if_neg Bool.false_ne_true]

theorem katakana_append (first second : Text) :
    katakana (first ++ second) = katakana first ++ katakana second :=
  List.map_append

/-! ### Outcomes that differ by the form of kana -/

/-- One outcome in hiragana and one in katakana that differ by the form of what they commit. -/
structure Outcome.Alike (hira kata : Outcome) : Prop where
  consumed : hira.consumed = kata.consumed
  segment : hira.segment = kata.segment
  shelf : hira.shelf = kata.shelf
  committed : katakana hira.committed = katakana kata.committed
  inHiragana : hira.mode = .hiragana
  inKatakana : kata.mode = .katakana

namespace Outcome

theorem alike_ite {c : Prop} [Decidable c] {hira kata hira' kata' : Outcome}
    (h : c → Alike hira kata) (h' : ¬ c → Alike hira' kata') :
    Alike (if c then hira else hira') (if c then kata else kata') := by
  by_cases hc : c
  · rw [if_pos hc, if_pos hc]
    exact h hc
  · rw [if_neg hc, if_neg hc]
    exact h' hc

/-- A command comes before what happens without one. -/
theorem alike_match {hira? kata? : Option Outcome} {hira kata : Outcome} :
    Option.Rel Alike hira? kata? → Alike hira kata →
      Alike
        (match hira? with
          | some outcome => outcome
          | none => hira)
        (match kata? with
          | some outcome => outcome
          | none => kata) := by
  intro hcommand h
  cases hcommand with
  | some hcommand => exact hcommand
  | none => exact h

theorem Alike.after {hira kata : Outcome} (h : Alike hira kata) {first second : Text}
    (hfirst : katakana first = katakana second) :
    Alike (hira.after first) (kata.after second) :=
  { h with
    committed := by
      show katakana (first ++ hira.committed) = katakana (second ++ kata.committed)
      rw [katakana_append, katakana_append, hfirst, h.committed] }

end Outcome

/-- The commands that change the form of kana, or commit them in another. -/
def Command.changingForm : List Command :=
  [.toggleKatakana, .asciiMode, .zenkakuMode, .hiraganaMode]

/-- The event gives none of the commands that change the form of kana. -/
def Keymap.KeepsForm (keymap : Keymap) (event : KeyEvent) : Prop :=
  ∀ command ∈ Command.changingForm, keymap.binds command event = false

instance (keymap : Keymap) (event : KeyEvent) : Decidable (keymap.KeepsForm event) :=
  inferInstanceAs (Decidable (∀ command ∈ Command.changingForm, _))

namespace Situation

open Outcome

variable {s : Situation} {event : KeyEvent}

/-- The situation in katakana. -/
def inKatakana (s : Situation) : Situation :=
  { s with mode := .katakana }

section InHiragana

variable (hmode : s.mode = .hiragana)
include hmode

/-- The form of kana is lost in katakana. -/
theorem katakana_render (kana : Text) :
    katakana (s.render kana) = katakana (s.inKatakana.render kana) := by
  rw [render, hmode]
  exact (katakana_katakana kana).symm

theorem alike_commits (segment : Segment) {first second : Text}
    (h : katakana first = katakana second) :
    Alike (s.commits segment first) (s.inKatakana.commits segment second) :=
  ⟨rfl, rfl, rfl, h, hmode, rfl⟩

theorem alike_moves (segment : Segment) :
    Alike (s.moves segment) (s.inKatakana.moves segment) :=
  alike_commits hmode segment rfl

theorem alike_ignores (segment : Segment) :
    Alike (s.ignores segment) (s.inKatakana.ignores segment) :=
  ⟨rfl, rfl, rfl, rfl, hmode, rfl⟩

/-! #### Typing -/

theorem alike_commitKana (b : Buffer) :
    Alike (s.commitKana s.render b) (s.inKatakana.commitKana s.inKatakana.render b) :=
  alike_commits hmode .idle (katakana_render hmode _)

/-- What is converted is the reading as it was typed. -/
theorem alike_convert (b : Buffer) : Alike (s.convert b) (s.inKatakana.convert b) := by
  unfold convert
  refine alike_ite (fun _ => alike_moves hmode .idle) fun _ => ?_
  exact alike_moves hmode (s.conversion (b.flush s.table).key .kana)

theorem alike_completeReading (b : Buffer) :
    Alike (s.completeReading b) (s.inKatakana.completeReading b) := by
  unfold completeReading
  refine alike_ite (fun _ => alike_moves hmode (.composing b)) fun _ => ?_
  exact alike_moves hmode (s.completion (.composing (b.flush s.table)) (b.flush s.table).kana .kana)

/-- The same command keys are taken while a reading is composed, with outcomes that are alike. -/
theorem alike_composeCommand? (hkey : s.settings.keymap.KeepsForm event) (b : Buffer) :
    Option.Rel Alike (s.composeCommand? b event) (s.inKatakana.composeCommand? b event) := by
  have htoggle : s.binds .toggleKatakana event = false := hkey .toggleKatakana (by decide)
  have hsame : ∀ command, s.inKatakana.binds command event = s.binds command event :=
    fun _ => rfl
  unfold composeCommand?
  simp only [hsame, htoggle, Bool.false_eq_true, if_false]
  split
  · exact .some (alike_convert hmode b)
  split
  · exact .some (alike_commitKana hmode b)
  split
  · exact .some (alike_moves hmode _)
  split
  · exact .some (alike_completeReading hmode b)
  split
  · exact .some (alike_moves hmode (.composing b))
  · exact .none

/-- What is typed into a reading is not yet in any form. -/
theorem alike_typeReading (b : Buffer) (c : Char) :
    Alike (s.typeReading b c) (s.inKatakana.typeReading b c) :=
  alike_moves hmode (s.afterTyping b (b.type s.table c))

variable (hkey : s.settings.keymap.KeepsForm event)
include hkey

theorem alike_openReading (c : Char) :
    Alike (s.openReading event c) (s.inKatakana.openReading event c) := by
  unfold openReading
  exact alike_match (alike_composeCommand? hmode hkey .empty) (alike_typeReading hmode .empty c)

theorem alike_directCommand? (tail : Text) :
    Option.Rel Alike (s.directCommand? tail event) (s.inKatakana.directCommand? tail event) := by
  have hflushed : katakana (s.flushed tail) = katakana (s.inKatakana.flushed tail) :=
    katakana_render hmode _
  have htoggle : s.binds .toggleKatakana event = false := hkey .toggleKatakana (by decide)
  have hascii : s.binds .asciiMode event = false := hkey .asciiMode (by decide)
  have hzenkaku : s.binds .zenkakuMode event = false := hkey .zenkakuMode (by decide)
  have hsame : ∀ command, s.inKatakana.binds command event = s.binds command event :=
    fun _ => rfl
  unfold directCommand?
  simp only [hsame, htoggle, hascii, hzenkaku, Bool.false_eq_true, if_false]
  split
  · exact .some (alike_commits hmode (.composing .empty) hflushed)
  split
  · exact .some (alike_commits hmode (.abbreviation []) hflushed)
  · exact .none

theorem alike_typeDirect (tail : Text) (c : Char) :
    Alike (s.typeDirect tail event c) (s.inKatakana.typeDirect tail event c) := by
  unfold typeDirect
  refine alike_ite (fun _ => ?_) fun _ => ?_
  · exact (alike_openReading hmode hkey c).after (katakana_render hmode _)
  · exact alike_commits hmode _ (katakana_render hmode _)

theorem alike_romaji (tail : Text) :
    Alike (s.romaji tail event) (s.inKatakana.romaji tail event) := by
  have hflushed : katakana (s.flushed tail) = katakana (s.inKatakana.flushed tail) :=
    katakana_render hmode _
  have hhiragana : s.binds .hiraganaMode event = false := hkey .hiraganaMode (by decide)
  unfold romaji
  refine alike_ite (fun _ => { alike_moves hmode .idle with consumed := rfl }) fun _ => ?_
  refine alike_ite (fun _ => { alike_moves hmode _ with consumed := rfl }) fun _ => ?_
  refine alike_ite (fun h => absurd h (by simp [hhiragana])) fun _ => ?_
  refine alike_ite (fun _ => { alike_commits hmode .idle hflushed with consumed := rfl })
    fun _ => ?_
  cases event.printable with
  | none => exact alike_ignores hmode (.direct tail)
  | some c =>
    exact alike_match (alike_directCommand? hmode hkey tail) (alike_typeDirect hmode hkey tail c)

theorem alike_direct (tail : Text) :
    Alike (s.direct tail event) (s.inKatakana.direct tail event) := by
  have hlatin : s.mode.isLatin = false := by
    rw [hmode]
    rfl
  rw [direct, hlatin]
  exact alike_romaji hmode hkey tail

theorem alike_compose (b : Buffer) :
    Alike (s.compose b event) (s.inKatakana.compose b event) := by
  unfold compose
  refine alike_match (alike_composeCommand? hmode hkey b) ?_
  cases event.printable with
  | none => exact alike_ignores hmode (.composing b)
  | some c =>
    refine alike_ite (fun _ => ?_) fun _ => alike_typeReading hmode b c
    exact (alike_direct hmode hkey []).after (alike_commitKana hmode b).committed

omit hkey in
theorem alike_abbreviate (letters : Text) :
    Alike (s.abbreviate letters event) (s.inKatakana.abbreviate letters event) := by
  unfold abbreviate
  refine alike_ite (fun _ => alike_moves hmode _) fun _ => ?_
  refine alike_ite (fun _ => alike_moves hmode _) fun _ => ?_
  refine alike_ite (fun _ => alike_commits hmode .idle rfl) fun _ => ?_
  refine alike_ite (fun _ => alike_moves hmode _) fun _ => ?_
  cases event.printable with
  | none => exact alike_ignores hmode _
  | some c => exact alike_moves hmode _

/-! #### Choosing -/

omit hkey in
/-- A word is committed as the dictionaries have it, and learned on both sides. -/
theorem alike_commitCurrent (selection : Selection) :
    Alike (s.commitCurrent selection) (s.inKatakana.commitCurrent selection) :=
  { alike_commits hmode .idle rfl with shelf := rfl }

omit hkey in
theorem alike_purgeCurrent (selection : Selection) :
    Alike (s.purgeCurrent selection) (s.inKatakana.purgeCurrent selection) :=
  { alike_moves hmode .idle with shelf := rfl }

theorem alike_commitAndType (stay : Segment) (selection : Selection) :
    Alike (s.commitAndType stay selection event)
      (s.inKatakana.commitAndType stay selection event) := by
  unfold commitAndType
  cases event.printable with
  | none => exact alike_ignores hmode stay
  | some c =>
    -- the key is typed where the word has been learned
    have hdirect := alike_direct
      (s := { s with shelf := (s.commitCurrent selection).shelf }) hmode hkey []
    exact { hdirect.after (alike_commitCurrent hmode selection).committed with consumed := rfl }

theorem alike_select (selection : Selection) :
    Alike (s.select selection event) (s.inKatakana.select selection event) := by
  unfold select
  refine alike_ite (fun _ => alike_moves hmode _) fun _ => ?_
  refine alike_ite (fun _ => alike_moves hmode _) fun _ => ?_
  refine alike_ite (fun _ => alike_purgeCurrent hmode selection) fun _ => ?_
  refine alike_ite (fun _ => alike_moves hmode _) fun _ => ?_
  refine alike_ite (fun _ => alike_moves hmode _) fun _ => ?_
  refine alike_ite (fun _ => alike_commitCurrent hmode selection) fun _ => ?_
  exact alike_commitAndType hmode hkey _ selection

theorem alike_complete (selection : Selection) :
    Alike (s.complete selection event) (s.inKatakana.complete selection event) := by
  unfold complete
  refine alike_ite (fun _ => alike_moves hmode _) fun _ => ?_
  refine alike_ite (fun _ => alike_moves hmode _) fun _ => ?_
  refine alike_ite (fun _ => alike_moves hmode _) fun _ => ?_
  refine alike_ite (fun _ => alike_moves hmode _) fun _ => ?_
  refine alike_ite (fun _ => alike_purgeCurrent hmode selection) fun _ => ?_
  refine alike_ite (fun _ => alike_commitCurrent hmode selection) fun _ => ?_
  exact alike_commitAndType hmode hkey _ selection

/-- **A key does the same in hiragana and in katakana**, unless it changes the form or reaches a
registration. -/
theorem alike_handle {segment : Segment} (hdepth : segment.depth = 0) :
    Alike (s.handle segment event) (s.inKatakana.handle segment event) := by
  cases segment with
  | direct tail => exact alike_direct hmode hkey tail
  | composing b =>
    unfold handle
    exact alike_ite (fun _ => alike_moves hmode .idle) fun _ => alike_compose hmode hkey b
  | abbreviation letters =>
    unfold handle
    exact alike_ite (fun _ => alike_moves hmode .idle) fun _ => alike_abbreviate hmode letters
  | selecting selection =>
    unfold handle
    exact alike_ite (fun _ => alike_moves hmode .idle) fun _ => alike_select hmode hkey selection
  | completing selection =>
    unfold handle
    exact alike_ite (fun _ => alike_moves hmode .idle) fun _ => alike_complete hmode hkey selection
  | registering key origin text inner =>
    -- the word of a registration would be in the form of the mode
    exact absurd hdepth (Nat.succ_ne_zero _)

end InHiragana

end Situation

namespace Session

/-! ### Two sessions -/

/-- One session in hiragana and one in katakana, each over dictionaries of its own, that are in the
same state and differ by the form of what they have committed. -/
structure Alike (hira kata : Session) : Prop where
  settings : hira.context.settings = kata.context.settings
  table : hira.context.table = kata.context.table
  layers : hira.context.layers = kata.context.layers
  shelf : hira.shelf = kata.shelf
  segment : hira.context.segment = kata.context.segment
  inHiragana : hira.context.mode = .hiragana
  inKatakana : kata.context.mode = .katakana
  output : katakana hira.context.output = katakana kata.context.output

variable {hira kata : Session}

theorem Alike.situation (h : Alike hira kata) : kata.situation = hira.situation.inKatakana := by
  simp only [Session.situation, Context.situation, Situation.inKatakana, h.settings, h.table,
    h.layers, h.shelf, h.inKatakana]

/-- **One key keeps the sessions alike**, and both answer it in the same way. -/
theorem Alike.press (h : Alike hira kata) {event : KeyEvent}
    (hkey : hira.context.settings.keymap.KeepsForm event)
    (hdepth : hira.context.segment.depth = 0) :
    hira.consumes event = kata.consumes event ∧ Alike (hira.press event) (kata.press event) := by
  cases hrelease : event.isRelease with
  | true =>
    have hconsumes : hira.consumes event = kata.consumes event := by
      simp [consumes, Context.press, hrelease]
    rw [press_of_release hira hrelease, press_of_release kata hrelease]
    exact ⟨hconsumes, h⟩
  | false =>
    have houtcome := Situation.alike_handle (s := hira.situation) h.inHiragana hkey hdepth
    rw [← h.situation, h.segment] at houtcome
    rw [consumes_of_not_release hira hrelease, consumes_of_not_release kata hrelease,
      press_of_not_release hira hrelease, press_of_not_release kata hrelease, h.segment]
    refine ⟨houtcome.consumed, h.settings, h.table, h.layers, houtcome.shelf, houtcome.segment,
      houtcome.inHiragana, houtcome.inKatakana, ?_⟩
    show katakana (hira.context.output ++ _) = katakana (kata.context.output ++ _)
    rw [katakana_append, katakana_append, h.output, houtcome.committed]

/-- None of the keys changes the form of kana, and none leads into a registration. -/
structure KeepsForm (session : Session) (events : List KeyEvent) : Prop where
  keys : ∀ event ∈ events, session.context.settings.keymap.KeepsForm event
  closed : ∀ done, done <+: events → (session.pressAll done).context.segment.depth = 0

theorem KeepsForm.rest {session : Session} {event : KeyEvent} {events : List KeyEvent}
    (h : session.KeepsForm (event :: events)) : (session.press event).KeepsForm events where
  keys := by
    intro other hother
    have hsettings : (session.press event).context.settings = session.context.settings :=
      (serve_frame session (.press event)).1
    rw [hsettings]
    exact h.keys other (List.mem_cons_of_mem _ hother)
  closed := by
    intro done hdone
    exact h.closed (event :: done) (List.cons_prefix_cons.mpr ⟨rfl, hdone⟩)

/-- **Katakana are only a way to show kana.**  Two sessions that are alike, one in hiragana and one
in katakana, stay alike under all keys that do not change the form of kana, as long as these lead
into no registration.  Both consume the same keys, and after each of them they have the same
segment, so the same text and candidates, equal dictionaries, and outputs that are equal in
katakana. -/
theorem katakana_display (hira kata : Session) (events : List KeyEvent) (h : Alike hira kata)
    (hkeys : ∀ event ∈ events, hira.context.settings.keymap.KeepsForm event)
    (hclosed : ∀ done, done <+: events → (hira.pressAll done).context.segment.depth = 0) :
    hira.answers events = kata.answers events ∧
      ∀ done, done <+: events → Alike (hira.pressAll done) (kata.pressAll done) := by
  have hkept : hira.KeepsForm events := ⟨hkeys, hclosed⟩
  refine related_runs (fun halike hleft => ?_) h hkept
  obtain ⟨hconsumes, hnext⟩ := halike.press (hleft.keys _ List.mem_cons_self)
    (hleft.closed [] List.nil_prefix)
  exact ⟨hconsumes, hnext, hleft.rest⟩

/-- か typed directly, 漢字 passed over for 感じ, and きょ committed as it is read. -/
theorem katakana_display_kanji :
    let entry : String → Entry := fun s => { surface := s.toList }
    let hira := start Settings.builtin RomajiTable.builtin [0]
      [Dictionary.user Dictionary.userName [("かんじ".toList, [entry "漢字", entry "感じ"])]]
    let kata := hira.serve (.setMode .katakana)
    let events := "kaKanji  ".toList.map KeyEvent.ofChar ++ [⟨.named .enter, .none⟩] ++
      "Kyo".toList.map KeyEvent.ofChar ++ [⟨.named .enter, .none⟩]
    Alike hira kata ∧ (∀ event ∈ events, hira.context.settings.keymap.KeepsForm event) ∧
      (∀ done, done <+: events → (hira.pressAll done).context.segment.depth = 0) ∧
      (∀ done, done <+: events → Alike (hira.pressAll done) (kata.pressAll done)) ∧
      (hira.pressAll events).context.output = "か感じきょ".toList ∧
      (kata.pressAll events).context.output = "カ感じキョ".toList := by
  intro entry hira kata events
  have halike : Alike hira kata := ⟨rfl, rfl, rfl, rfl, rfl, rfl, rfl, rfl⟩
  have hkeys : ∀ event ∈ events, hira.context.settings.keymap.KeepsForm event := by
    decide +kernel
  have hclosed : ∀ done ∈ events.inits, (hira.pressAll done).context.segment.depth = 0 := by
    decide +kernel
  have hbeginnings : ∀ done, done <+: events →
      (hira.pressAll done).context.segment.depth = 0 := fun done hdone =>
    hclosed done ((List.mem_inits done events).mpr hdone)
  have hall := (katakana_display hira kata events halike hkeys hbeginnings).2
  exact ⟨halike, hkeys, hbeginnings, hall, by decide +kernel, by decide +kernel⟩

end Session

end KanaKanji

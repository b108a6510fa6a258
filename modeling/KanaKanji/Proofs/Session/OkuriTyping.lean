/-
Okurigana typed with a capital anywhere in their key.

While a reading is composed, a capital opens its okurigana.  Where no key of the table begins
another, the letters of the key that wait in the tail go over to the okurigana with it, so that it
makes no difference at which letter of the key shift is held, or at how many.

* `Session.Composes.looksUp_iff`: when a character that is typed into a reading has it looked up;
* `Session.Composes.pressAll_keys`: keys of the table add their kana, one after the other;
* `Session.Composes.convertsLast_capital`: a key with a capital in it has the reading converted
  when it is complete, and not before;
* `Session.okurigana_converted`: both from the empty reading on, and what is looked up then.
-/
import KanaKanji.Proofs.Romaji.Syllables
import KanaKanji.Proofs.Session.Inflection
import KanaKanji.Proofs.Session.PlainTyping
import Mathlib.Data.List.Infix

namespace KanaKanji

/-! ### Keys that type any character -/

/-- The event is no command and types the character. -/
structure Keymap.Prints (keymap : Keymap) (event : KeyEvent) (c : Char) : Prop where
  printable : event.printable = some c
  free : ∀ command, keymap.binds command event = false

instance (keymap : Keymap) (event : KeyEvent) (c : Char) : Decidable (keymap.Prints event c) :=
  decidable_of_iff (event.printable = some c ∧ ∀ command, keymap.binds command event = false)
    ⟨fun h => ⟨h.1, h.2⟩, fun h => ⟨h.printable, h.free⟩⟩

/-- A character in lower case is no capital. -/
theorem isUpper_of_toLower_eq {c : Char} (h : c.toLower = c) : c.isUpper = false := by
  rw [Bool.eq_false_iff]
  intro hupper
  have hval := congrArg Char.val h
  unfold Char.isUpper at hupper
  simp only [ge_iff_le, decide_eq_true_eq] at hupper
  unfold Char.toLower at hval
  rw [dif_pos hupper] at hval
  exact absurd hval (by simp)

/-! ### Readings with open okurigana -/

namespace Buffer

/-- A reading with okurigana that have just been opened. -/
def opened (kana tail : Text) : Buffer :=
  { kana := kana, okuri := some [], tail := tail }

theorem okuriComplete_opened (kana tail : Text) : (opened kana tail).okuriComplete = false := by
  simp [opened, okuriComplete, okuriText]

theorem type_opened (table : RomajiTable) (kana tail : Text) (c : Char) :
    (opened kana tail).type table c =
      { kana := kana
        okuri := some (table.feed tail c).emitted
        tail := (table.feed tail c).tail } := by
  simp [opened, type, append]

/-- A capital that continues the tail takes it over to the okurigana. -/
theorem type_capital {table : RomajiTable} {kana tail : Text} {c : Char} (hc : c.isUpper = true)
    (hkana : kana ≠ []) (hsplit : table.feedSplit tail c = ([], table.feed tail c)) :
    (plain kana tail).type table c = (opened kana tail).type table c := by
  rw [type_opened]
  simp [plain, type, hc, hkana, hsplit]

end Buffer

/-! ### One key in a reading -/

namespace Situation

variable {s : Situation} {b : Buffer} {event : KeyEvent} {c : Char}

theorem isFull_of_text {kana : Text} (hb : b.text = kana)
    (hroom : kana.length < s.settings.maxCompositionLength) : s.isFull b = false := by
  rw [isFull, hb]
  exact decide_eq_false (Nat.not_le.mpr hroom)

theorem autoStartKey?_of_keyword (h : s.settings.autoStartKeyword? b.kana = none) :
    s.autoStartKey? b = none := by
  rw [autoStartKey?, h]
  rfl

/-- Where there is room, the key types its character. -/
theorem handle_of_prints (hp : s.settings.keymap.Prints event c) (hroom : s.isFull b = false) :
    s.handle (.composing b) event = s.moves (s.afterTyping b (b.type s.table c)) := by
  rw [handle_composing (hp.free .cancel),
    compose_of_room (fun command _ => hp.free command) hp.printable hroom]
  rfl

/-- Where there is room, a character has a reading looked up that it completes the okurigana of, or
that it ends in a keyword. -/
theorem looksUp_iff_of_prints (hp : s.settings.keymap.Prints event c) (hroom : s.isFull b = false)
    (lookup : Lookup) :
    (∃ reading, s.LooksUp event (.composing b) reading lookup) ↔
      (b.type s.table c).okuriComplete = true ∧ lookup = .conversion (b.type s.table c).key ∨
        ∃ key, b.kana.length < (b.type s.table c).kana.length ∧
          (b.type s.table c).okuri = none ∧ s.autoStartKey? (b.type s.table c) = some key ∧
          lookup = .conversion key := by
  have hfeeds : s.Feeds event b b c :=
    ⟨hp.printable, hp.free .cancel, fun command _ => hp.free command, Or.inl ⟨hroom, rfl⟩⟩
  have honly : ∀ {old other}, s.Feeds event b old other → other = c ∧ old = b := by
    intro old other h
    refine ⟨Option.some.inj (h.printable.symm.trans hp.printable), ?_⟩
    rcases h.into with ⟨-, he⟩ | ⟨hfull, -⟩
    · exact he
    · exact nomatch hfull.symm.trans hroom
  constructor
  · rintro ⟨reading, h⟩
    cases h with
    | convert key kana => exact nomatch key.bound.symm.trans (hp.free .convert)
    | complete key okuri => exact nomatch key.bound.symm.trans (hp.free .complete)
    | okurigana feeds complete =>
      obtain ⟨rfl, rfl⟩ := honly feeds
      exact Or.inl ⟨complete, rfl⟩
    | keyword feeds grows okuri start =>
      obtain ⟨rfl, rfl⟩ := honly feeds
      exact Or.inr ⟨_, grows, okuri, start, rfl⟩
  · rintro (⟨hcomplete, rfl⟩ | ⟨key, hgrows, hokuri, hstart, rfl⟩)
    · exact ⟨_, .okurigana hfeeds hcomplete⟩
    · exact ⟨_, .keyword hfeeds hgrows hokuri hstart⟩

end Situation

/-! ### Keys one after the other -/

theorem exists_append_of_forall₂ {α β : Type} {R : α → β → Prop} {all : List α}
    {first second : List β} (h : List.Forall₂ R all (first ++ second)) :
    ∃ before after, all = before ++ after ∧ List.Forall₂ R before first ∧
      List.Forall₂ R after second :=
  ⟨_, _, (List.take_append_drop first.length all).symm, List.forall₂_take_append _ _ _ h,
    List.forall₂_drop_append _ _ _ h⟩

/-- How rules are typed, one after the other. -/
def keysOf (rules : List (Text × Text)) : Text :=
  rules.flatMap Prod.fst

/-- What rules produce, one after the other. -/
def kanaOf (rules : List (Text × Text)) : Text :=
  rules.flatMap Prod.snd

namespace Session

variable {s : Situation} {depth : Nat} {session : Session} {b : Buffer} {event : KeyEvent}
  {c : Char}

/-- The key has what is composed inside so many registrations looked up. -/
def LooksUp (session : Session) (depth : Nat) (event : KeyEvent) (lookup : Lookup) : Prop :=
  ∃ part reading, session.context.segment.within? depth = some part ∧
    (session.situation.deeper depth).LooksUp event part reading lookup

/-- Inside so many registrations a reading is composed, in the situation `s`. -/
structure Composes (s : Situation) (depth : Nat) (session : Session) (b : Buffer) : Prop where
  situation : session.situation.deeper depth = s
  part : session.context.segment.within? depth = some (.composing b)

namespace Composes

variable (h : Composes s depth session b) (hp : s.settings.keymap.Prints event c)
  (hroom : s.isFull b = false)
include h hp hroom

theorem looksUp_iff (lookup : Lookup) :
    session.LooksUp depth event lookup ↔
      (b.type s.table c).okuriComplete = true ∧ lookup = .conversion (b.type s.table c).key ∨
        ∃ key, b.kana.length < (b.type s.table c).kana.length ∧
          (b.type s.table c).okuri = none ∧ s.autoStartKey? (b.type s.table c) = some key ∧
          lookup = .conversion key := by
  rw [← Situation.looksUp_iff_of_prints hp hroom, LooksUp, h.situation, h.part]
  constructor
  · rintro ⟨part, reading, hpart, hlooks⟩
    obtain rfl := Option.some.inj hpart
    exact ⟨reading, hlooks⟩
  · rintro ⟨reading, hlooks⟩
    exact ⟨_, reading, rfl, hlooks⟩

theorem within?_press :
    (session.press event).context.segment.within? depth
      = some (s.afterTyping b (b.type s.table c)) := by
  obtain ⟨rfl, hpart⟩ := h
  have hrelease : event.isRelease = false := KeyEvent.isRelease_of_eq_some hp.printable
  rw [Session.within?_press session hrelease (hp.free .cancel) hpart nofun,
    Situation.handle_of_prints hp hroom]
  rfl

/-- Nothing besides the segment changes. -/
theorem situation_press : (session.press event).situation.deeper depth = s := by
  obtain ⟨rfl, hpart⟩ := h
  have hpass : session.situation.PassesTo (.composing b) event := ⟨hp.free .cancel, trivial⟩
  obtain ⟨hshelf, hmode⟩ := Situation.handle_of_within? hpart hpass
  rw [Situation.handle_of_prints hp hroom] at hshelf hmode
  rw [press_of_not_release session (KeyEvent.isRelease_of_eq_some hp.printable)]
  exact congrArg₂ (fun mode shelf => ({ session.situation with
    mode := mode
    shelf := shelf } : Situation).deeper depth) hmode hshelf

/-- A character that has nothing looked up goes to the reading. -/
theorem press_of_stays (hcomplete : (b.type s.table c).okuriComplete = false)
    (hkeyword : b.kana.length < (b.type s.table c).kana.length →
      s.autoStartKey? (b.type s.table c) = none) :
    (∀ lookup, ¬ session.LooksUp depth event lookup) ∧
      Composes s depth (session.press event) (b.type s.table c) := by
  have hstays : s.afterTyping b (b.type s.table c) = .composing (b.type s.table c) := by
    rw [Situation.afterTyping, hcomplete, if_neg Bool.false_ne_true]
    split
    · rename_i hgrows
      rw [hkeyword (of_decide_eq_true (Bool.and_eq_true_iff.mp hgrows).1)]
    · rfl
  refine ⟨fun lookup hlooks => ?_, ⟨?_, ?_⟩⟩
  · rcases (h.looksUp_iff hp hroom lookup).mp hlooks with ⟨he, -⟩ | ⟨key, hgrows, -, hkey, -⟩
    · exact Bool.false_ne_true (hcomplete.symm.trans he)
    · exact Option.some_ne_none key (hkey.symm.trans (hkeyword hgrows))
  · exact h.situation_press hp hroom
  · rw [h.within?_press hp hroom, hstays]

/-- A character that completes the okurigana has the reading converted. -/
theorem press_of_completes (hcomplete : (b.type s.table c).okuriComplete = true) :
    (∀ lookup, session.LooksUp depth event lookup ↔
      lookup = .conversion (b.type s.table c).key) ∧
      (session.press event).context.segment.within? depth
        = some (s.conversion (b.type s.table c).key .kana) := by
  refine ⟨fun lookup => (h.looksUp_iff hp hroom lookup).trans ?_, ?_⟩
  · constructor
    · rintro (⟨-, he⟩ | ⟨key, -, hokuri, -⟩)
      · exact he
      · -- without okurigana none are complete
        simp [Buffer.okuriComplete, Buffer.okuriText, hokuri] at hcomplete
    · exact fun he => Or.inl ⟨hcomplete, he⟩
  · rw [h.within?_press hp hroom, Situation.afterTyping_of_okuriComplete hcomplete]

end Composes

/-! ### Keys of the table -/

/-- None of the keys has anything looked up inside so many registrations. -/
def Quiet (depth : Nat) : Session → List KeyEvent → Prop
  | _, [] => True
  | session, event :: events =>
    (∀ lookup, ¬ session.LooksUp depth event lookup) ∧ Quiet depth (session.press event) events

theorem quiet_append {first second : List KeyEvent} :
    Quiet depth session (first ++ second) ↔
      Quiet depth session first ∧ Quiet depth (session.pressAll first) second := by
  induction first generalizing session with
  | nil => exact (and_iff_right trivial).symm
  | cons event first ih => exact (and_congr_right fun _ => ih).trans and_assoc.symm

/-- The last of the keys has the key converted, and no other has anything looked up. -/
structure ConvertsLast (s : Situation) (depth : Nat) (key : ConversionKey) (session : Session)
    (events : List KeyEvent) : Prop where
  exists_last : ∃ before last, events = before ++ [last] ∧ Quiet depth session before ∧
    ∀ lookup, (session.pressAll before).LooksUp depth last lookup ↔ lookup = .conversion key
  after : (session.pressAll events).context.segment.within? depth = some (s.conversion key .kana)

theorem ConvertsLast.cons {key : ConversionKey} {events : List KeyEvent}
    (h : ConvertsLast s depth key (session.press event) events)
    (hquiet : ∀ lookup, ¬ session.LooksUp depth event lookup) :
    ConvertsLast s depth key session (event :: events) := by
  obtain ⟨⟨before, last, rfl, hbefore, hlast⟩, hafter⟩ := h
  exact ⟨⟨event :: before, last, rfl, ⟨hquiet, hbefore⟩, hlast⟩, hafter⟩

theorem ConvertsLast.append {key : ConversionKey} {first second : List KeyEvent}
    (hquiet : Quiet depth session first)
    (h : ConvertsLast s depth key (session.pressAll first) second) :
    ConvertsLast s depth key session (first ++ second) := by
  obtain ⟨⟨before, last, rfl, hbefore, hlast⟩, hafter⟩ := h
  refine ⟨⟨first ++ before, last, (List.append_assoc ..).symm, quiet_append.mpr ⟨hquiet, hbefore⟩,
    fun lookup => ?_⟩, ?_⟩
  · rw [pressAll_append, hlast]
  · rw [pressAll_append, hafter]

/-- Of all keys only the last has anything looked up. -/
theorem ConvertsLast.looksUp_iff {key : ConversionKey} {events first rest : List KeyEvent}
    (h : ConvertsLast s depth key session events) (hevents : events = first ++ event :: rest)
    (lookup : Lookup) :
    (session.pressAll first).LooksUp depth event lookup ↔
      rest = [] ∧ lookup = .conversion key := by
  obtain ⟨⟨before, last, rfl, hquiet, hlast⟩, -⟩ := h
  rcases List.eq_nil_or_concat rest with rfl | ⟨others, other, rfl⟩
  · obtain ⟨rfl, he⟩ := List.append_inj' hevents rfl
    obtain rfl := (List.cons.inj he).1
    exact (hlast lookup).trans (and_iff_right rfl).symm
  · rw [List.concat_eq_append] at hevents ⊢
    have hsplit : before = first ++ event :: others := by
      have hboth : before ++ [last] = (first ++ event :: others) ++ [other] := by
        rw [hevents, List.append_assoc, List.cons_append]
      exact (List.append_inj' hboth rfl).1
    rw [hsplit] at hquiet
    exact iff_of_false ((quiet_append.mp hquiet).2.1 lookup) fun hboth => by simp at hboth

/-- A character in lower case feeds the transliterator. -/
theorem Composes.press_plain {kana tail : Text} (h : Composes s depth session (.plain kana tail))
    (hp : s.settings.keymap.Prints event c) (hc : c.isUpper = false)
    (hroom : kana.length < s.settings.maxCompositionLength)
    (hkeyword : (s.table.feed tail c).emitted ≠ [] →
      s.settings.autoStartKeyword? (kana ++ (s.table.feed tail c).emitted) = none) :
    (∀ lookup, ¬ session.LooksUp depth event lookup) ∧
      Composes s depth (session.press event)
        (.plain (kana ++ (s.table.feed tail c).emitted) (s.table.feed tail c).tail) := by
  have hfull := Situation.isFull_of_text (Buffer.text_plain kana tail) hroom
  have hstays := h.press_of_stays hp hfull
  rw [Buffer.type_plain hc] at hstays
  refine hstays (Buffer.okuriComplete_plain _ _) fun hgrows => ?_
  refine Situation.autoStartKey?_of_keyword (hkeyword fun hnone => ?_)
  rw [hnone, List.append_nil] at hgrows
  exact absurd hgrows (Nat.lt_irrefl _)

section

variable (hfree : s.table.PrefixFree)
include hfree

/-- The rest of a key, typed behind its beginning, adds the kana of the key. -/
theorem Composes.pressAll_key (hlower : s.table.LowerCase) {kana tail rest value : Text}
    {events : List KeyEvent} (h : Composes s depth session (.plain kana tail))
    (htyped : List.Forall₂ s.settings.keymap.Prints events rest) (hne : rest ≠ [])
    (hrule : (tail ++ rest, value) ∈ s.table.rules.items)
    (hroom : kana.length < s.settings.maxCompositionLength)
    (hkeyword : s.settings.autoStartKeyword? (kana ++ value) = none) :
    Quiet depth session events ∧
      Composes s depth (session.pressAll events) (.plain (kana ++ value) []) := by
  induction htyped generalizing session tail with
  | nil => exact absurd rfl hne
  | @cons event c events rest hp htyped ih =>
    have hc : c.toLower = c := hlower _ hrule c (by simp)
    have hrule' : (tail ++ c.toLower :: rest, value) ∈ s.table.rules.items := by rwa [hc]
    have hpressed := h.press_plain hp (isUpper_of_toLower_eq hc) hroom
    by_cases hlast : rest = []
    · subst hlast
      cases htyped
      rw [hfree.feed_last hrule'] at hpressed
      obtain ⟨hquiet, hafter⟩ := hpressed fun _ => hkeyword
      exact ⟨⟨hquiet, trivial⟩, hafter⟩
    · rw [hfree.feed_waiting tail hrule' hlast, List.append_nil, hc] at hpressed
      obtain ⟨hquiet, hafter⟩ := hpressed fun hne => absurd rfl hne
      obtain ⟨hquiets, hall⟩ := ih hafter hlast (by rwa [List.append_assoc])
      exact ⟨⟨hquiet, hquiets⟩, hall⟩

/-- **Keys of the table, typed one after the other, add their kana.** -/
theorem Composes.pressAll_keys (hlower : s.table.LowerCase) {kana : Text}
    {rules : List (Text × Text)} {events : List KeyEvent}
    (h : Composes s depth session (.plain kana []))
    (htyped : List.Forall₂ s.settings.keymap.Prints events (keysOf rules))
    (hrules : ∀ rule ∈ rules, rule ∈ s.table.rules.items)
    (hroom : (kana ++ kanaOf rules).length < s.settings.maxCompositionLength)
    (hkeyword : ∀ first, first <+: rules → first ≠ [] →
      s.settings.autoStartKeyword? (kana ++ kanaOf first) = none) :
    Quiet depth session events ∧
      Composes s depth (session.pressAll events) (.plain (kana ++ kanaOf rules) []) := by
  induction rules generalizing kana session events with
  | nil =>
    cases htyped
    exact ⟨trivial, (List.append_nil kana).symm ▸ h⟩
  | cons rule rules ih =>
    obtain ⟨first, second, rfl, hfirst, hsecond⟩ := exists_append_of_forall₂ htyped
    obtain ⟨hrule, hrules⟩ := List.forall_mem_cons.mp hrules
    have hassoc : ∀ more, kana ++ rule.2 ++ kanaOf more = kana ++ kanaOf (rule :: more) :=
      fun more => List.append_assoc ..
    have hbefore : kana.length < s.settings.maxCompositionLength := by
      rw [List.length_append] at hroom
      omega
    have hfirstKeyword : s.settings.autoStartKeyword? (kana ++ rule.2) = none := by
      have hone := hkeyword [rule] ⟨rules, rfl⟩ (List.cons_ne_nil _ _)
      rwa [← hassoc, show kanaOf [] = [] from rfl, List.append_nil] at hone
    obtain ⟨hquiet, hafter⟩ := h.pressAll_key hfree hlower hfirst
      (RomajiTable.key_ne_nil hrule) hrule hbefore hfirstKeyword
    obtain ⟨hquiets, hall⟩ := ih hafter hsecond hrules (hassoc rules ▸ hroom) fun more hmore _ => by
      rw [hassoc]
      exact hkeyword _ (List.cons_prefix_cons.mpr ⟨rfl, hmore⟩) (List.cons_ne_nil _ _)
    rw [hassoc] at hall
    rw [pressAll_append]
    exact ⟨quiet_append.mpr ⟨hquiet, hquiets⟩, hall⟩

/-! ### A key with a capital -/

/-- **A key with a capital in it has the reading converted when it is complete**, and not before.
Its letters before the first capital, if it comes to that, are `tail`. -/
theorem Composes.convertsLast_capital {kana tail rest value : Text} {events : List KeyEvent}
    (h : Composes s depth session b) (hkana : kana ≠ [])
    (hroom : kana.length < s.settings.maxCompositionLength)
    (htyped : List.Forall₂ s.settings.keymap.Prints events rest) (hne : rest ≠ [])
    (hrule : (tail ++ rest.map Char.toLower, value) ∈ s.table.rules.items)
    (hb : b = .opened kana tail ∨ b = .plain kana tail ∧ ∃ c ∈ rest, c.isUpper = true) :
    ConvertsLast s depth { yomi := kana, okuri := value } session events := by
  induction htyped generalizing session b tail with
  | nil => exact absurd rfl hne
  | @cons event c events rest hp htyped ih =>
    have hrule' : (tail ++ c.toLower :: rest.map Char.toLower, value) ∈ s.table.rules.items := hrule
    have hnext : (tail ++ [c.toLower] ++ rest.map Char.toLower, value) ∈ s.table.rules.items := by
      rwa [List.append_assoc]
    have hbkana : b.kana = kana ∧ b.text = kana := by
      rcases hb with rfl | ⟨rfl, -⟩
      · exact ⟨rfl, List.append_nil kana⟩
      · exact ⟨rfl, Buffer.text_plain kana tail⟩
    have hfull : s.isFull b = false := Situation.isFull_of_text hbkana.2 hroom
    have hopen : b.type s.table c = (Buffer.opened kana tail).type s.table c →
        ConvertsLast s depth { yomi := kana, okuri := value } session (event :: events) := by
      intro htype
      rw [Buffer.type_opened] at htype
      by_cases hlast : rest = []
      · subst hlast
        cases htyped
        rw [hfree.feed_last hrule'] at htype
        have hcomplete : (b.type s.table c).okuriComplete = true := by
          rw [htype]
          simpa [Buffer.okuriComplete, Buffer.okuriText] using (s.table.sound _ hrule).2
        obtain ⟨hlooks, hafter⟩ := h.press_of_completes hp hfull hcomplete
        rw [htype] at hlooks hafter
        exact ⟨⟨[], event, rfl, trivial, hlooks⟩, hafter⟩
      · rw [hfree.feed_waiting tail hrule' (by simpa using hlast)] at htype
        have hstays := h.press_of_stays hp hfull
        rw [htype] at hstays
        obtain ⟨hquiet, hafter⟩ := hstays (Buffer.okuriComplete_opened _ _) fun hgrows =>
          absurd hgrows (by rw [hbkana.1]; exact Nat.lt_irrefl _)
        exact (ih hafter hlast hnext (Or.inl rfl)).cons hquiet
    rcases hb with rfl | ⟨rfl, hcapital⟩
    · exact hopen rfl
    · by_cases hc : c.isUpper = true
      · exact hopen (Buffer.type_capital hc hkana (RomajiTable.feedSplit_of_mem hrule'))
      · -- the capital comes later
        have hlater : ∃ d ∈ rest, d.isUpper = true := by
          obtain ⟨d, hd, hupper⟩ := hcapital
          rcases List.mem_cons.mp hd with rfl | hd
          · exact absurd hupper hc
          · exact ⟨d, hd, hupper⟩
        have hrest : rest ≠ [] := by
          obtain ⟨d, hd, -⟩ := hlater
          exact List.ne_nil_of_mem hd
        have hpressed := h.press_plain hp (by simpa using hc) hroom
        rw [hfree.feed_waiting tail hrule' (by simpa using hrest), List.append_nil] at hpressed
        obtain ⟨hquiet, hafter⟩ := hpressed fun hne => absurd rfl hne
        exact (ih hafter hrest hnext (Or.inr ⟨rfl, hlater⟩)).cons hquiet

end

/-! ### Whole readings -/

/-- **Okurigana may be opened at any letter of their key.**  Let no key of the table begin another,
and none have capitals.  Into an empty reading, at any depth, keys of the table are typed, and then
the letters of another one, some of them with shift; no command is bound to any, there is room for
the kana, and none of the readings in between ends in a keyword.

* Of all keys only the last has anything looked up: it has the kana converted, with the kana of the
  last key as their okurigana.
* What is looked up is the kana, with `#` for their numbers, and the class letter of the okurigana,
  if they have one.
* All that is listed then ends in the okurigana. -/
theorem okurigana_converted (session : Session) (depth : Nat) (rules : List (Text × Text))
    (rule : Text × Text) (letters : Text) (events : List KeyEvent)
    (hpart : session.context.segment.within? depth = some (.composing .empty))
    (hfree : session.context.table.PrefixFree) (hlower : session.context.table.LowerCase)
    (hne : rules ≠ []) (hrules : ∀ other ∈ rules, other ∈ session.context.table.rules.items)
    (hrule : rule ∈ session.context.table.rules.items)
    (hletters : letters.map Char.toLower = rule.1) (hcapital : ∃ c ∈ letters, c.isUpper = true)
    (htyped : List.Forall₂ session.context.settings.keymap.Prints events
      (keysOf rules ++ letters))
    (hroom : (kanaOf rules).length < session.context.settings.maxCompositionLength)
    (hkeyword : ∀ first, first <+: rules → first ≠ [] →
      session.context.settings.autoStartKeyword? (kanaOf first) = none) :
    let key : ConversionKey := { yomi := kanaOf rules, okuri := rule.2 }
    let s := session.situation.deeper depth
    (∀ first event rest, events = first ++ event :: rest → ∀ lookup,
      (session.pressAll first).LooksUp depth event lookup ↔
        rest = [] ∧ lookup = .conversion key) ∧
    (session.pressAll events).context.segment.within? depth = some (s.conversion key .kana) ∧
    key.headword = (numericKey (kanaOf rules)).1 ++ (rule.2.head?.bind okuriClass).toList ∧
    ∀ selection, s.conversion key .kana = .selecting selection →
      selection.candidates.map Candidate.entry = s.dictionaries.lookup key.headword ∧
        ∀ candidate ∈ selection.candidates, rule.2 <:+ candidate.output := by
  intro key s
  have hstart : Composes s depth session (.plain [] []) := ⟨rfl, hpart⟩
  obtain ⟨before, after, rfl, hbefore, hafter⟩ := exists_append_of_forall₂ htyped
  have hkana : kanaOf rules ≠ [] := by
    obtain ⟨first, rest, rfl⟩ := List.exists_cons_of_ne_nil hne
    have hfirst : first.2 ≠ [] := (session.context.table.sound _ (hrules first (by simp))).2
    exact List.append_ne_nil_of_left_ne_nil hfirst _
  have hnonempty : letters ≠ [] := by
    obtain ⟨c, hc, -⟩ := hcapital
    exact List.ne_nil_of_mem hc
  obtain ⟨hquiet, hstem⟩ := hstart.pressAll_keys hfree hlower hbefore hrules hroom hkeyword
  have hconverts : ConvertsLast s depth key session (before ++ after) := by
    refine .append hquiet ?_
    refine hstem.convertsLast_capital hfree hkana hroom hafter hnonempty ?_
      (Or.inr ⟨rfl, hcapital⟩)
    rw [List.nil_append, hletters]
    exact hrule
  refine ⟨fun first event rest hevents lookup => hconverts.looksUp_iff hevents lookup,
    hconverts.after, rfl, fun selection hselection => ?_⟩
  refine ⟨Situation.entries_of_conversion hselection, fun candidate hcandidate => ?_⟩
  rw [Situation.candidates_of_conversion hselection] at hcandidate
  rw [Candidate.output, Layered.key_of_mem_candidates hcandidate]
  exact ⟨_, (List.append_nil _).symm⟩

/-- A table with rules for a number and two syllables. -/
def countingTable : RomajiTable :=
  ⟨Index.ofList [("1".toList, "1".toList), ("ka".toList, "か".toList), ("ku".toList, "く".toList)],
    firstFault_eq_none_iff.mp (by decide +kernel)⟩

/-- 画 for the inflected words of かk with a number in front. -/
def countedWords : Shelf :=
  [Dictionary.fixed Dictionary.systemName [("#かk".toList, [{ surface := "#3画".toList }])]]

/-- 一画く, with shift held at the last letter of its okurigana: the k before it waits.  The number of
the reading is a `#` in what is looked up. -/
theorem okurigana_converted_kaku :
    let session := (start Settings.builtin countingTable [0] countedWords).press
      (KeyEvent.ofChar 'Q')
    let rules := [("1".toList, "1".toList), ("ka".toList, "か".toList)]
    let letters := "kU".toList
    let key : ConversionKey := { yomi := "1か".toList, okuri := "く".toList }
    let events := "1kakU".toList.map KeyEvent.ofChar
    session.context.segment.within? 0 = some (.composing .empty) ∧
      letters.map Char.toLower = "ku".toList ∧ (∃ c ∈ letters, c.isUpper = true) ∧
      List.Forall₂ session.context.settings.keymap.Prints events (keysOf rules ++ letters) ∧
      (∀ lookup, ¬ (session.pressAll ("1ka".toList.map KeyEvent.ofChar)).LooksUp 0
        (KeyEvent.ofChar 'k') lookup) ∧
      (session.pressAll events).context.segment.within? 0
        = some ((session.situation.deeper 0).conversion key .kana) ∧
      key.headword = "#かk".toList ∧
      (session.pressAll events).context.preedit = "▼一画く".toList := by
  intro session rules letters key events
  have hpart : session.context.segment.within? 0 = some (.composing .empty) := by decide +kernel
  have hfree : session.context.table.PrefixFree :=
    RomajiTable.prefixFree_of_neighboursApart (by decide +kernel)
  have hlower : session.context.table.LowerCase := by decide +kernel
  have hrules : ∀ other ∈ rules, other ∈ session.context.table.rules.items := by decide +kernel
  have hku : ("ku".toList, "く".toList) ∈ session.context.table.rules.items := by decide +kernel
  have hletters : letters.map Char.toLower = "ku".toList := by decide
  have hcapital : ∃ c ∈ letters, c.isUpper = true := ⟨'U', by decide, by decide⟩
  have htyped : List.Forall₂ session.context.settings.keymap.Prints events
      (keysOf rules ++ letters) := by decide +kernel
  have hkeyword : ∀ first ∈ rules.inits, first ≠ [] →
      session.context.settings.autoStartKeyword? (kanaOf first) = none := by decide +kernel
  obtain ⟨hlooks, hafter, hheadword, -⟩ := okurigana_converted session 0 rules
    ("ku".toList, "く".toList) letters events hpart hfree hlower (List.cons_ne_nil _ _) hrules hku
    hletters hcapital htyped (by decide +kernel)
    fun first hfirst => hkeyword first ((List.mem_inits first rules).mpr hfirst)
  refine ⟨hpart, hletters, hcapital, htyped, fun lookup hlookup => ?_, hafter, ?_, ?_⟩
  · exact absurd ((hlooks _ _ _ rfl lookup).mp hlookup).1 (List.cons_ne_nil _ _)
  · exact hheadword.trans (by decide +kernel)
  · decide +kernel

end Session

end KanaKanji

/-
Lookups: the keys that have a reading looked up.

A reading is converted by the convert key, by the character that completes its okurigana, and
by the one that ends it in a keyword; without okurigana it is completed by the complete key.
An abbreviation knows the two command keys only.  `Situation.LooksUp` lists these ways, each
with the reading as it is when it is looked up, that is, flushed or with the character typed.

* `Situation.handle_of_looksUp`: such a key leads to what the lookup leads to;
* `Situation.exists_looksUp`: no other key leads to candidates or to a registration;
* `Situation.LooksUp.text_key`: the key that is looked up spells the reading.

Design notes: a capital that finds the reading full types into a new one, so that it is the
reading before the character, and not the segment, that `Situation.Feeds` tells.
-/
import KanaKanji.Proofs.Session.Nesting
import KanaKanji.Proofs.Session.Overflow

namespace KanaKanji

/-! ### Lookups -/

/-- What a reading is looked up for. -/
inductive Lookup
  | conversion (key : ConversionKey)
  | completion (yomi : Text)

namespace Lookup

/-- The key of the candidates. -/
def key : Lookup → ConversionKey
  | conversion key => key
  | completion yomi => { yomi := yomi }

/-- The segment in which one of the candidates is chosen. -/
def choosing : Lookup → Selection → Segment
  | conversion _ => .selecting
  | completion _ => .completing

end Lookup

namespace Segment

/-- Where a conversion of the segment starts from. -/
def origin : Segment → Origin
  | abbreviation _ => .abbreviation
  | _ => .kana

/-- Candidates are shown, or a word is registered. -/
def lookedUp : Segment → Bool
  | selecting _ => true
  | completing _ => true
  | registering _ _ _ _ => true
  | _ => false

theorem ne_direct_of_reading {segment : Segment}
    (hreading : segment.mode = .composing ∨ segment.mode = .abbreviation) (tail : Text) :
    segment ≠ .direct tail := by
  rintro rfl
  exact hreading.elim nofun nofun

end Segment

theorem Selection.exists_first? (key : ConversionKey) (origin : Origin)
    {candidates : List Candidate} (h : candidates ≠ []) :
    ∃ selection, first? key origin candidates = some selection := by
  obtain ⟨c, cs, rfl⟩ := List.exists_cons_of_ne_nil h
  exact ⟨_, rfl⟩

namespace Situation

variable {s : Situation} {event : KeyEvent}

/-- What the dictionaries have for a lookup. -/
def found (s : Situation) : Lookup → List Candidate
  | .conversion key => s.dictionaries.candidates key
  | .completion yomi => s.dictionaries.completions yomi s.settings.maxCompletions

/-- What the lookup of a reading leads to. -/
def lookUp (s : Situation) (reading : Segment) : Lookup → Segment
  | .conversion key => s.conversion key reading.origin
  | .completion yomi => s.completion reading yomi reading.origin

/-- Where something is found, the candidates are shown. -/
theorem lookUp_of_found {lookup : Lookup} (reading : Segment) (h : s.found lookup ≠ []) :
    ∃ selection, s.lookUp reading lookup = lookup.choosing selection ∧
      selection.key = lookup.key ∧ selection.origin = reading.origin ∧
      selection.candidates = s.found lookup := by
  cases lookup with
  | conversion key =>
    have hfound : s.dictionaries.candidates key ≠ [] := h
    obtain ⟨selection, hfirst⟩ := Selection.exists_first? key reading.origin hfound
    obtain ⟨hkey, horigin, hcandidates, -⟩ := Selection.first?_eq_some hfirst
    refine ⟨selection, ?_, hkey, horigin, hcandidates⟩
    rw [lookUp, conversion, hfirst]
    rfl
  | completion yomi =>
    have hfound : s.dictionaries.completions yomi s.settings.maxCompletions ≠ [] := h
    obtain ⟨selection, hfirst⟩ :=
      Selection.exists_first? { yomi := yomi } reading.origin hfound
    obtain ⟨hkey, horigin, hcompletions, -⟩ := Selection.first?_eq_some hfirst
    refine ⟨selection, ?_, hkey, horigin, hcompletions⟩
    rw [lookUp, completion, hfirst]
    rfl

theorem conversion_of_not_found {key : ConversionKey} (origin : Origin)
    (h : s.dictionaries.candidates key = []) :
    s.conversion key origin =
      if s.canRegister then registration key origin else .editing key origin := by
  rw [conversion, h]
  rfl

theorem completion_of_not_found {yomi : Text} (stay : Segment) (origin : Origin)
    (h : s.dictionaries.completions yomi s.settings.maxCompletions = []) :
    s.completion stay yomi origin = stay := by
  rw [completion, h]
  rfl

/-! ### Keys that have a reading looked up -/

/-- The commands of direct typing that a reading does not have. -/
def switchCommands : List Command :=
  [.hiraganaMode, .asciiMode, .zenkakuMode, .abbreviation]

/-- The key types the character `c` into the reading `old`: into `b` where there is room, or
into a new reading when `b` is full and the character is a capital. -/
structure Feeds (s : Situation) (event : KeyEvent) (b old : Buffer) (c : Char) : Prop where
  printable : event.printable = some c
  cancel : s.binds .cancel event = false
  free : ∀ command ∈ readingCommands, s.binds command event = false
  into : s.isFull b = false ∧ old = b ∨
    s.isFull b = true ∧ old = .empty ∧ s.mode.isLatin = false ∧ c.isUpper = true ∧
      ∀ command ∈ switchCommands, s.binds command event = false

/-- The key has the segment looked up, as the reading and for the lookup that come last. -/
inductive LooksUp (s : Situation) (event : KeyEvent) : Segment → Segment → Lookup → Prop
  | convert {b : Buffer} (key : s.settings.keymap.Gives [.cancel] .convert event)
      (kana : (b.flush s.table).kana ≠ []) :
      LooksUp s event (.composing b) (.composing (b.flush s.table))
        (.conversion (b.flush s.table).key)
  | complete {b : Buffer}
      (key : s.settings.keymap.Gives [.cancel, .convert, .commit, .delete] .complete event)
      (okuri : b.okuri = none) :
      LooksUp s event (.composing b) (.composing (b.flush s.table))
        (.completion (b.flush s.table).kana)
  | okurigana {b old : Buffer} {c : Char} (feeds : s.Feeds event b old c)
      (complete : (old.type s.table c).okuriComplete = true) :
      LooksUp s event (.composing b) (.composing (old.type s.table c))
        (.conversion (old.type s.table c).key)
  | keyword {b old : Buffer} {c : Char} {key : ConversionKey} (feeds : s.Feeds event b old c)
      (grows : old.kana.length < (old.type s.table c).kana.length)
      (okuri : (old.type s.table c).okuri = none)
      (start : s.autoStartKey? (old.type s.table c) = some key) :
      LooksUp s event (.composing b) (.composing (old.type s.table c)) (.conversion key)
  | convertLetters {letters : Text} (key : s.settings.keymap.Gives [.cancel] .convert event)
      (written : letters ≠ []) :
      LooksUp s event (.abbreviation letters) (.abbreviation letters)
        (.conversion { yomi := letters })
  | completeLetters {letters : Text}
      (key : s.settings.keymap.Gives [.cancel, .convert] .complete event)
      (written : letters ≠ []) :
      LooksUp s event (.abbreviation letters) (.abbreviation letters) (.completion letters)

/-! ### What is looked up -/

/-- A keyword ends the reading, and what is converted is the rest. -/
theorem kana_of_autoStartKey? {b : Buffer} {key : ConversionKey}
    (h : s.autoStartKey? b = some key) : key.okuri = [] ∧ key.yomi ++ key.suffix = b.kana := by
  obtain ⟨keyword, hkeyword, hkey⟩ := Option.bind_eq_some_iff.mp h
  dsimp only at hkey
  split at hkey
  · exact nomatch hkey
  · obtain rfl := Option.some.inj hkey
    unfold Settings.autoStartKeyword? at hkeyword
    have hends := List.find?_some hkeyword
    obtain ⟨rest, hrest⟩ := List.isSuffixOf_iff_suffix.mp hends
    have htake : b.kana.take (b.kana.length - keyword.length) = rest := by
      rw [← hrest, List.length_append, Nat.add_sub_cancel, List.take_left]
    exact ⟨rfl, by rw [htake, hrest]⟩

theorem okuri_flush {b : Buffer} (table : RomajiTable) (h : b.okuri = none) :
    (b.flush table).okuri = none :=
  Buffer.okuri_append_eq_none.mpr h

theorem Feeds.isRelease_eq_false {b old : Buffer} {c : Char} (h : s.Feeds event b old c) :
    event.isRelease = false :=
  KeyEvent.isRelease_of_eq_some h.printable

namespace LooksUp

variable {segment reading : Segment} {lookup : Lookup}

theorem mode_reading (h : s.LooksUp event segment reading lookup) :
    reading.mode = segment.mode := by
  cases h <;> rfl

theorem isRelease_eq_false (h : s.LooksUp event segment reading lookup) :
    event.isRelease = false := by
  cases h with
  | convert key kana => exact key.press
  | complete key okuri => exact key.press
  | okurigana feeds complete => exact feeds.isRelease_eq_false
  | keyword feeds grows okuri start => exact feeds.isRelease_eq_false
  | convertLetters key written => exact key.press
  | completeLetters key written => exact key.press

theorem cancel_eq_false (h : s.LooksUp event segment reading lookup) :
    s.binds .cancel event = false := by
  cases h with
  | convert key kana => exact key.free .cancel (by decide)
  | complete key okuri => exact key.free .cancel (by decide)
  | okurigana feeds complete => exact feeds.cancel
  | keyword feeds grows okuri start => exact feeds.cancel
  | convertLetters key written => exact key.free .cancel (by decide)
  | completeLetters key written => exact key.free .cancel (by decide)

/-- The key that is looked up spells the reading: its stem, okurigana and suffix are the stem
and the okurigana that have been typed. -/
theorem text_key (h : s.LooksUp event segment reading lookup) :
    lookup.key.text = reading.buffer.text := by
  cases h with
  | convert key kana => exact List.append_nil _
  | complete key okuri =>
    show _ ++ [] ++ [] = Buffer.text (Buffer.flush s.table _)
    rw [Buffer.text, Buffer.okuriText, okuri_flush s.table okuri, List.append_nil]
    rfl
  | okurigana feeds complete => exact List.append_nil _
  | @keyword b old c key feeds grows okuri start =>
    obtain ⟨hokuri, hkana⟩ := kana_of_autoStartKey? start
    show key.text = (old.type s.table c).text
    rw [ConversionKey.text, hokuri, List.append_nil, hkana, Buffer.text, Buffer.okuriText, okuri]
    exact (List.append_nil _).symm
  | convertLetters key written =>
    exact List.append_nil _
  | completeLetters key written =>
    exact List.append_nil _

end LooksUp

/-! ### What the keys do -/

theorem direct_of_capital {tail : Text} {c : Char} (hp : event.printable = some c)
    (hcancel : s.binds .cancel event = false)
    (hfree : ∀ command ∈ readingCommands, s.binds command event = false)
    (hmode : s.mode.isLatin = false) (hc : c.isUpper = true)
    (hswitch : ∀ command ∈ switchCommands, s.binds command event = false) :
    (s.direct tail event).segment = s.afterTyping .empty (Buffer.empty.type s.table c) := by
  have hcommand : s.directCommand? tail event = none := by
    unfold directCommand?
    rw [hfree .toggleKatakana (by decide), hswitch .asciiMode (by decide),
      hswitch .zenkakuMode (by decide), hfree .beginComposition (by decide),
      hswitch .abbreviation (by decide)]
    rfl
  unfold direct romaji
  dsimp only
  rw [hmode, hcancel, hfree .delete (by decide), hswitch .hiraganaMode (by decide),
    hfree .commit (by decide), if_neg Bool.false_ne_true, if_neg Bool.false_ne_true,
    if_neg Bool.false_ne_true, if_neg Bool.false_ne_true, if_neg Bool.false_ne_true, hp]
  dsimp only
  rw [hcommand, typeDirect, if_pos hc, Outcome.segment_after, openReading,
    composeCommand?_eq_none_iff.mpr hfree]
  rfl

theorem segment_of_feeds {b old : Buffer} {c : Char} (h : s.Feeds event b old c) :
    (s.handle (.composing b) event).segment = s.afterTyping old (old.type s.table c) := by
  rw [handle_composing h.cancel]
  rcases h.into with ⟨hroom, rfl⟩ | ⟨hfull, rfl, hmode, hc, hswitch⟩
  · rw [compose_of_room h.free h.printable hroom]
    rfl
  · -- the full reading is committed, which the segment does not tell
    have hover : s.Overflows b event :=
      ⟨h.free, by rw [h.printable]; exact Option.some_ne_none c, hfull⟩
    rw [compose_of_overflows hover, Outcome.segment_after]
    exact direct_of_capital h.printable h.cancel h.free hmode hc hswitch

theorem afterTyping_of_okuriComplete {old b : Buffer} (h : b.okuriComplete = true) :
    s.afterTyping old b = s.conversion b.key .kana := by
  rw [afterTyping, if_pos h]

theorem afterTyping_of_autoStartKey? {old b : Buffer} {key : ConversionKey}
    (hgrows : old.kana.length < b.kana.length) (hokuri : b.okuri = none)
    (hkey : s.autoStartKey? b = some key) : s.afterTyping old b = s.conversion key .kana := by
  -- without okurigana none are complete
  have hcomplete : ¬ b.okuriComplete = true := by
    simp [Buffer.okuriComplete, Buffer.okuriText, hokuri]
  have hstarts : (decide (old.kana.length < b.kana.length) && b.okuri.isNone) = true := by
    simp [hgrows, hokuri]
  rw [afterTyping, if_neg hcomplete, if_pos hstarts, hkey]

/-- **A key that has a reading looked up** leads to what the lookup leads to. -/
theorem handle_of_looksUp {segment reading : Segment} {lookup : Lookup}
    (h : s.LooksUp event segment reading lookup) :
    (s.handle segment event).segment = s.lookUp reading lookup := by
  cases h with
  | @convert b key kana =>
    have hkana : ¬ (b.flush s.table).kana.isEmpty = true := by simpa using kana
    rw [handle_composing (key.free .cancel (by decide)), compose_of_convert key,
      Situation.convert, if_neg hkana]
    rfl
  | @complete b key okuri =>
    have hcomplete : s.binds .complete event = true := key.bound
    have hconvert : s.binds .convert event = false := key.free .convert (by decide)
    have hcommit : s.binds .commit event = false := key.free .commit (by decide)
    have hdelete : s.binds .delete event = false := key.free .delete (by decide)
    rw [handle_composing (key.free .cancel (by decide)), compose, composeCommand?, hconvert,
      hcommit, hdelete, if_neg Bool.false_ne_true, if_neg Bool.false_ne_true,
      if_neg Bool.false_ne_true, if_pos hcomplete]
    dsimp only
    rw [completeReading, okuri]
    rfl
  | okurigana feeds complete =>
    rw [segment_of_feeds feeds, afterTyping_of_okuriComplete complete]
    rfl
  | keyword feeds grows okuri start =>
    rw [segment_of_feeds feeds, afterTyping_of_autoStartKey? grows okuri start]
    rfl
  | @convertLetters letters key written =>
    have hconvert : s.binds .convert event = true := key.bound
    have hletters : ¬ letters.isEmpty = true := by simpa using written
    rw [handle_abbreviation (key.free .cancel (by decide)), abbreviate]
    dsimp only
    rw [if_pos hconvert, if_neg hletters]
    rfl
  | @completeLetters letters key written =>
    have hcomplete : s.binds .complete event = true := key.bound
    have hconvert : s.binds .convert event = false := key.free .convert (by decide)
    have hletters : ¬ letters.isEmpty = true := by simpa using written
    rw [handle_abbreviation (key.free .cancel (by decide)), abbreviate]
    dsimp only
    rw [hconvert, if_neg Bool.false_ne_true, if_pos hcomplete, if_neg hletters]
    rfl

/-! ### There are no other ways -/

theorem gives_of_binds {before : List Command} {command : Command}
    (hpress : event.isRelease = false) (hbound : s.binds command event = true)
    (hfree : ∀ other ∈ before, s.binds other event = false) :
    s.settings.keymap.Gives before command event :=
  ⟨hpress, hbound, hfree⟩

/-- What direct typing has looked up is a capital that opens a reading. -/
theorem capital_of_lookedUp {tail : Text} {c : Char} (hp : event.printable = some c)
    (h : (s.direct tail event).segment.lookedUp = true) :
    s.mode.isLatin = false ∧ c.isUpper = true ∧
      ∀ command ∈ switchCommands, s.binds command event = false := by
  unfold direct at h
  by_cases hmode : s.mode.isLatin = true
  · rw [if_pos hmode, latin, hp] at h
    split at h
    · exact nomatch h
    · exact nomatch h
  rw [if_neg hmode, romaji] at h
  dsimp only at h
  split_ifs at h with hcancel hdelete hhiragana hcommit
  · exact nomatch h
  · exact nomatch h
  · exact nomatch h
  · exact nomatch h
  rw [hp] at h
  dsimp only at h
  cases hd : s.directCommand? tail event with
  | some outcome =>
    -- the commands end the tail, or open a reading or an abbreviation
    rw [hd] at h
    unfold directCommand? at hd
    dsimp only at hd
    split_ifs at hd <;> obtain rfl := Option.some.inj hd <;> exact nomatch h
  | none =>
    rw [hd] at h
    unfold directCommand? at hd
    dsimp only at hd
    split_ifs at hd with htoggle hascii hzenkaku hbegin habbreviation
    by_cases hc : c.isUpper = true
    · refine ⟨by simpa using hmode, hc, ?_⟩
      simp [switchCommands, hhiragana, hascii, hzenkaku, habbreviation]
    · dsimp only at h
      rw [typeDirect, if_neg hc] at h
      exact nomatch h

theorem exists_looksUp_of_feeds {b old : Buffer} {c : Char} (hfeeds : s.Feeds event b old c)
    (h : (s.handle (.composing b) event).segment.lookedUp = true) :
    ∃ reading lookup, s.LooksUp event (.composing b) reading lookup := by
  rw [segment_of_feeds hfeeds, afterTyping] at h
  split_ifs at h with hcomplete hstarts
  · exact ⟨_, _, .okurigana hfeeds hcomplete⟩
  · cases hkey : s.autoStartKey? (old.type s.table c) with
    | none =>
      rw [hkey] at h
      exact nomatch h
    | some key =>
      obtain ⟨hgrows, hokuri⟩ := Bool.and_eq_true_iff.mp hstarts
      exact ⟨_, _, .keyword hfeeds (of_decide_eq_true hgrows) (Option.isNone_iff_eq_none.mp hokuri)
        hkey⟩
  · exact nomatch h

/-- A character that has anything looked up goes to the reading, or to a new one. -/
theorem exists_feeds {b : Buffer} {c : Char} (hp : event.printable = some c)
    (hcancel : s.binds .cancel event = false)
    (hfree : ∀ command ∈ readingCommands, s.binds command event = false)
    (h : (s.compose b event).segment.lookedUp = true) : ∃ old, s.Feeds event b old c := by
  by_cases hfull : s.isFull b = true
  · have hover : s.Overflows b event :=
      ⟨hfree, by rw [hp]; exact Option.some_ne_none c, hfull⟩
    rw [compose_of_overflows hover, Outcome.segment_after] at h
    obtain ⟨hmode, hc, hswitch⟩ := capital_of_lookedUp hp h
    exact ⟨_, hp, hcancel, hfree, Or.inr ⟨hfull, rfl, hmode, hc, hswitch⟩⟩
  · exact ⟨_, hp, hcancel, hfree, Or.inl ⟨by simpa using hfull, rfl⟩⟩

theorem exists_looksUp_of_command (hpress : event.isRelease = false)
    (hcancel : s.binds .cancel event = false) {b : Buffer} {outcome : Outcome}
    (ho : s.composeCommand? b event = some outcome) (h : outcome.segment.lookedUp = true) :
    ∃ reading lookup, s.LooksUp event (.composing b) reading lookup := by
  unfold composeCommand? at ho
  split_ifs at ho with hconvert hcommit hdelete hcomplete htoggle hbegin <;>
    obtain rfl := Option.some.inj ho
  · unfold Situation.convert at h
    dsimp only at h
    split_ifs at h with hkana
    · exact nomatch h
    · have hkey : s.settings.keymap.Gives [.cancel] .convert event :=
        gives_of_binds hpress hconvert (by simpa using hcancel)
      exact ⟨_, _, .convert hkey (by simpa using hkana)⟩
  · exact nomatch h
  · unfold popReading at h
    dsimp only at h
    split_ifs at h
    · exact nomatch h
    · exact nomatch h
  · unfold completeReading at h
    split_ifs at h with hokuri
    · exact nomatch h
    · have hkey : s.settings.keymap.Gives [.cancel, .convert, .commit, .delete] .complete event :=
        gives_of_binds hpress hcomplete (by simp [hcancel, hconvert, hcommit, hdelete])
      exact ⟨_, _, .complete hkey (by simpa using hokuri)⟩
  · exact nomatch h
  · exact nomatch h

theorem exists_looksUp_composing (hpress : event.isRelease = false)
    (hcancel : s.binds .cancel event = false) {b : Buffer}
    (h : (s.compose b event).segment.lookedUp = true) :
    ∃ reading lookup, s.LooksUp event (.composing b) reading lookup := by
  cases ho : s.composeCommand? b event with
  | some outcome =>
    unfold compose at h
    rw [ho] at h
    exact exists_looksUp_of_command hpress hcancel ho h
  | none =>
    cases hp : event.printable with
    | none =>
      unfold compose at h
      rw [ho, hp] at h
      exact nomatch h
    | some c =>
      obtain ⟨old, hfeeds⟩ := exists_feeds hp hcancel (composeCommand?_eq_none_iff.mp ho) h
      rw [← handle_composing hcancel] at h
      exact exists_looksUp_of_feeds hfeeds h

theorem exists_looksUp_abbreviation (hpress : event.isRelease = false)
    (hcancel : s.binds .cancel event = false) {letters : Text}
    (h : (s.abbreviate letters event).segment.lookedUp = true) :
    ∃ reading lookup, s.LooksUp event (.abbreviation letters) reading lookup := by
  unfold abbreviate at h
  dsimp only at h
  split_ifs at h with hconvert hletters hcomplete hletters hcommit hdelete hlast
  · exact nomatch h
  · have hkey : s.settings.keymap.Gives [.cancel] .convert event :=
      gives_of_binds hpress hconvert (by simpa using hcancel)
    exact ⟨_, _, .convertLetters hkey (by simpa using hletters)⟩
  · exact nomatch h
  · have hkey : s.settings.keymap.Gives [.cancel, .convert] .complete event :=
      gives_of_binds hpress hcomplete (by simp [hcancel, hconvert])
    exact ⟨_, _, .completeLetters hkey (by simpa using hletters)⟩
  · exact nomatch h
  · exact nomatch h
  · exact nomatch h
  · cases hp : event.printable with
    | none =>
      rw [hp] at h
      exact nomatch h
    | some c =>
      rw [hp] at h
      exact nomatch h

/-- **Every key that leads from a reading to candidates or to a registration** has it looked
up. -/
theorem exists_looksUp (hpress : event.isRelease = false) {segment : Segment}
    (hreading : segment.mode = .composing ∨ segment.mode = .abbreviation)
    (h : (s.handle segment event).segment.lookedUp = true) :
    ∃ reading lookup, s.LooksUp event segment reading lookup := by
  have hcancel : s.binds .cancel event = false := by
    cases hbound : s.binds .cancel event with
    | false => rfl
    | true =>
      rw [handle_of_cancel hbound (Segment.ne_direct_of_reading hreading)] at h
      exact nomatch h
  cases segment with
  | composing b =>
    rw [handle_composing hcancel] at h
    exact exists_looksUp_composing hpress hcancel h
  | abbreviation letters =>
    rw [handle_abbreviation hcancel] at h
    exact exists_looksUp_abbreviation hpress hcancel h
  | _ => exact hreading.elim nofun nofun

end Situation

/-! ### Sessions -/

namespace Session

variable {session : Session} {event : KeyEvent} {depth : Nat} {segment : Segment}

theorem within?_press_of_looksUp {reading : Segment} {lookup : Lookup}
    (hpart : session.context.segment.within? depth = some segment)
    (h : (session.situation.deeper depth).LooksUp event segment reading lookup) :
    (session.press event).context.segment.within? depth
      = some ((session.situation.deeper depth).lookUp reading lookup) := by
  have hdirect : ∀ tail, segment ≠ .direct tail := by
    intro tail
    cases h <;> exact nofun
  rw [within?_press session h.isRelease_eq_false h.cancel_eq_false hpart hdirect,
    Situation.handle_of_looksUp h]

/-- A key that leads from a reading to candidates or to a registration has it looked up. -/
theorem exists_looksUp_of_press {part : Segment}
    (hpart : session.context.segment.within? depth = some segment)
    (hreading : segment.mode = .composing ∨ segment.mode = .abbreviation)
    (hafter : (session.press event).context.segment.within? depth = some part)
    (h : part.lookedUp = true) :
    ∃ reading lookup, (session.situation.deeper depth).LooksUp event segment reading lookup := by
  have hdirect := Segment.ne_direct_of_reading hreading
  by_cases hrelease : event.isRelease = true
  · -- the reading is still there
    rw [press_of_release session hrelease, hpart] at hafter
    obtain rfl := Option.some.inj hafter
    cases segment with
    | selecting selection => exact hreading.elim nofun nofun
    | completing selection => exact hreading.elim nofun nofun
    | registering key origin text inner => exact hreading.elim nofun nofun
    | _ => exact nomatch h
  have hpress : event.isRelease = false := by simpa using hrelease
  by_cases hcancel : session.situation.binds .cancel event = true
  · -- nothing is left
    have hwhole : ∀ tail, session.context.segment ≠ .direct tail := by
      intro tail hwhole
      rw [hwhole] at hpart
      cases depth with
      | zero => exact hdirect tail (Option.some.inj hpart).symm
      | succ depth => exact nomatch hpart
    rw [press_of_not_release session hpress, Situation.handle_of_cancel hcancel hwhole] at hafter
    cases depth with
    | zero =>
      obtain rfl := Option.some.inj hafter
      exact nomatch h
    | succ depth => exact nomatch hafter
  · have hcancel' : session.situation.binds .cancel event = false := by simpa using hcancel
    rw [within?_press session hpress hcancel' hpart hdirect] at hafter
    obtain rfl := Option.some.inj hafter
    exact Situation.exists_looksUp hpress hreading h

end Session

end KanaKanji

/-
Sessions over an alphabet.

Whatever goes into a session, the table, the dictionaries, the characters typed and the words
registered by the host, goes through tails, readings, keys, candidates and words, and comes out as
committed text or goes back into dictionaries.  What is shown in between has marks; the text behind
it never does.

* `Situation.over_handle`: over an alphabet a key leads to nothing outside it;
* `Situation.Asks.over`: nor is anything outside it looked up;
* `Session.over_run`: so it is after every run;
* `alphabet_ne_of_mark`: without one of the marks the other characters are an alphabet.
-/
import KanaKanji.Proofs.Dictionary.Alphabet
import KanaKanji.Proofs.Session.GoingBack
import KanaKanji.Proofs.Session.Writes

namespace KanaKanji

variable {P : Char → Prop}

/-! ### Romaji -/

/-- All keys and all kana of the table are over `P`. -/
def RomajiTable.Over (P : Char → Prop) (table : RomajiTable) : Prop :=
  ∀ rule ∈ table.rules.items, Text.Over P rule.1 ∧ Text.Over P rule.2

instance [DecidablePred P] (table : RomajiTable) : Decidable (table.Over P) :=
  inferInstanceAs (Decidable (∀ rule ∈ table.rules.items, Text.Over P rule.1 ∧ Text.Over P rule.2))

/-- What leaves the tail and the new tail are over `P`. -/
structure Step.Over (P : Char → Prop) (step : Step) : Prop where
  emitted : Text.Over P step.emitted
  tail : Text.Over P step.tail

theorem Step.Over.after {step : Step} (h : step.Over P) {head : Text} (hhead : Text.Over P head)
    (kind : StepKind) : (step.after head kind).Over P :=
  ⟨Text.over_append.mpr ⟨hhead, h.emitted⟩, h.tail⟩

namespace RomajiTable

variable {table : RomajiTable} (htable : table.Over P)
include htable

theorem Over.kana {romaji kana : Text}
    (h : table.lookup romaji = .whole kana ∨ table.lookup romaji = .wholeAndStem kana) :
    Text.Over P kana :=
  (htable _ (mem_rules_of_lookup h)).2

theorem over_start {key : Char} (hkey : P key) : (table.start key).Over P := by
  have hwaits := Text.over_singleton hkey
  unfold start
  split
  · rename_i hlookup
    exact ⟨htable.kana (Or.inl hlookup), Text.over_nil⟩
  · exact ⟨Text.over_nil, hwaits⟩
  · exact ⟨Text.over_nil, hwaits⟩
  · exact ⟨hwaits, Text.over_nil⟩

section

variable (hP : Alphabet P) {tail : Text} (htail : Text.Over P tail)
include hP htail

theorem over_restart {key : Char} (hkey : P key) : (table.restart tail key).Over P := by
  have hstart := over_start htable hkey
  unfold restart
  split
  · exact ⟨Text.over_singleton hP.double, Text.over_singleton hkey⟩
  · split
    · exact hstart.after (Text.over_singleton hP.nasal) _
    · split
      · rename_i hlookup
        exact hstart.after (htable.kana (Or.inr hlookup)) _
      · exact hstart.after htail _

theorem over_feed {key : Char} (hkey : P key) : (table.feed tail key).Over P := by
  -- the key is typed in lower case, and goes behind the tail
  have hlower : P key.toLower := hP.toLower key hkey
  have hgrown : Text.Over P (tail ++ [key.toLower]) :=
    Text.over_append.mpr ⟨htail, Text.over_singleton hlower⟩
  unfold feed
  dsimp only
  split
  · exact over_start htable hlower
  · split
    · rename_i hlookup
      exact ⟨htable.kana (Or.inl hlookup), Text.over_nil⟩
    · exact ⟨Text.over_nil, hgrown⟩
    · exact ⟨Text.over_nil, hgrown⟩
    · exact over_restart htable hP htail hlower

theorem over_feedSplit {key : Char} (hkey : P key) :
    Text.Over P (table.feedSplit tail key).1 ∧ (table.feedSplit tail key).2.Over P := by
  have hwhole := over_feed htable hP htail hkey
  unfold feedSplit
  dsimp only
  split
  · exact ⟨Text.over_nil, hwhole⟩
  · -- the head is what the whole emits without what the key alone does
    refine ⟨?_, (over_start htable (hP.toLower key hkey)).emitted, hwhole.tail⟩
    unfold Text.dropEnding?
    split
    · exact hwhole.emitted.take _
    · exact hwhole.emitted

theorem over_flush : Text.Over P (table.flush tail) := by
  unfold flush
  split
  · exact Text.over_singleton hP.nasal
  · split
    · rename_i hlookup
      exact htable.kana (Or.inl hlookup)
    · rename_i hlookup
      exact htable.kana (Or.inr hlookup)
    · exact htail

end

end RomajiTable

/-! ### Readings -/

/-- All parts of the reading are over `P`. -/
structure Buffer.Over (P : Char → Prop) (b : Buffer) : Prop where
  kana : Text.Over P b.kana
  okuri : Text.Over P b.okuriText
  tail : Text.Over P b.tail

namespace Buffer

variable {b : Buffer} {table : RomajiTable}

theorem over_empty : empty.Over P :=
  ⟨Text.over_nil, Text.over_nil, Text.over_nil⟩

theorem Over.text (h : b.Over P) : Text.Over P b.text :=
  Text.over_append.mpr ⟨h.kana, h.okuri⟩

theorem Over.key (h : b.Over P) : b.key.Over P :=
  ⟨h.kana, h.okuri, Text.over_nil⟩

theorem over_ofKey {key : ConversionKey} (h : key.Over P) : (ofKey key).Over P := by
  unfold ofKey
  split
  · exact ⟨Text.over_append.mpr ⟨h.yomi, h.suffix⟩, Text.over_nil, Text.over_nil⟩
  · exact ⟨h.yomi, Text.over_append.mpr ⟨h.okuri, h.suffix⟩, Text.over_nil⟩

/-- Text goes behind the okurigana if they are open, else behind the stem. -/
theorem Over.append (h : b.Over P) {s tail : Text} (hs : Text.Over P s)
    (htail : Text.Over P tail) : Buffer.Over P { b.append s with tail := tail } := by
  have hokuri := h.okuri
  unfold Buffer.append
  unfold okuriText at hokuri
  cases ho : b.okuri with
  | none => exact ⟨Text.over_append.mpr ⟨h.kana, hs⟩, by simp [okuriText], htail⟩
  | some okuri =>
    rw [ho] at hokuri
    exact ⟨h.kana, Text.over_append.mpr ⟨hokuri, hs⟩, htail⟩

theorem Over.pop (h : b.Over P) : b.pop.Over P := by
  have hokuri := h.okuri
  unfold Buffer.pop
  split
  · exact ⟨h.kana, hokuri, h.tail.dropLast⟩
  · split
    · rename_i okuri ho
      rw [okuriText, ho] at hokuri
      refine ⟨h.kana, ?_, h.tail⟩
      unfold okuriText
      dsimp only
      split
      · exact Text.over_nil
      · exact hokuri.dropLast
    · rename_i ho
      exact ⟨h.kana.dropLast, hokuri, h.tail⟩

section

variable (hP : Alphabet P) (htable : table.Over P)
include hP htable

theorem Over.flush (h : b.Over P) : (b.flush table).Over P :=
  h.append (RomajiTable.over_flush htable hP h.tail) Text.over_nil

theorem Over.type (h : b.Over P) {c : Char} (hc : P c) : (b.type table c).Over P := by
  unfold Buffer.type
  split
  · obtain ⟨hhead, hstep⟩ := RomajiTable.over_feedSplit htable hP h.tail hc
    exact ⟨Text.over_append.mpr ⟨h.kana, hhead⟩, hstep.emitted, hstep.tail⟩
  · have hstep := RomajiTable.over_feed htable hP h.tail hc
    exact h.append hstep.emitted hstep.tail

end

end Buffer

/-! ### Segments -/

/-- The key and all candidates are over `P`. -/
structure Selection.Over (P : Char → Prop) (selection : Selection) : Prop where
  key : selection.key.Over P
  candidates : ∀ candidate ∈ selection.candidates, candidate.Over P

theorem Selection.Over.current {selection : Selection} (h : selection.Over P) :
    selection.current.Over P :=
  h.candidates _ selection.current_mem

theorem Selection.over_first? {key : ConversionKey} {origin : Origin}
    {candidates : List Candidate} {selection : Selection} (hkey : key.Over P)
    (hcandidates : ∀ candidate ∈ candidates, candidate.Over P)
    (h : first? key origin candidates = some selection) : selection.Over P := by
  obtain ⟨rfl, -, hc, -⟩ := first?_eq_some h
  exact ⟨hkey, by rw [hc]; exact hcandidates⟩

namespace Segment

/-- All text in the segment and those inside it is over `P`. -/
def Over (P : Char → Prop) : Segment → Prop
  | direct tail => Text.Over P tail
  | composing b => b.Over P
  | abbreviation letters => Text.Over P letters
  | selecting selection => selection.Over P
  | completing selection => selection.Over P
  | registering key _ text inner => key.Over P ∧ Text.Over P text ∧ inner.Over P

theorem over_idle : idle.Over P := Text.over_nil

theorem over_editing {key : ConversionKey} (h : key.Over P) (origin : Origin) :
    (editing key origin).Over P := by
  cases origin with
  | kana => exact Buffer.over_ofKey h
  | abbreviation => exact h.text

theorem Over.within? {segment part : Segment} (h : segment.Over P) {depth : Nat}
    (hpart : segment.within? depth = some part) : part.Over P := by
  induction depth generalizing segment with
  | zero =>
    obtain rfl := Option.some.inj hpart
    exact h
  | succ depth ih =>
    cases segment with
    | registering key origin text inner => exact ih h.2.2 hpart
    | _ => exact nomatch hpart

/-- What the host can read of the reading. -/
theorem Over.buffer {segment : Segment} (h : segment.Over P) : segment.buffer.Over P := by
  have hinnermost : segment.innermost.Over P := by
    induction segment with
    | registering key origin text inner ih => exact ih h.2.2
    | _ => exact h
  unfold Segment.buffer
  cases hsegment : segment.innermost with
  | direct tail =>
    rw [hsegment] at hinnermost
    exact ⟨Text.over_nil, Text.over_nil, hinnermost⟩
  | composing b =>
    rw [hsegment] at hinnermost
    exact hinnermost
  | abbreviation letters =>
    rw [hsegment] at hinnermost
    exact ⟨hinnermost, Text.over_nil, Text.over_nil⟩
  | _ => exact Buffer.over_empty

end Segment

/-! ### Forms of kana -/

namespace Alphabet

variable (hP : Alphabet P)
include hP

theorem over_render (mode : InputMode) {kana : Text} (h : Text.Over P kana) :
    Text.Over P (mode.render kana) := by
  unfold InputMode.render
  split
  · exact h.map hP.katakana
  · exact h

theorem over_renderFlipped (mode : InputMode) {kana : Text} (h : Text.Over P kana) :
    Text.Over P (mode.renderFlipped kana) := by
  unfold InputMode.renderFlipped
  split
  · exact h.map hP.hiragana
  · exact h.map hP.katakana

theorem latinChar (mode : InputMode) {c : Char} (h : P c) : P (mode.latinChar c) := by
  unfold InputMode.latinChar
  split
  · exact hP.fullWidth c h
  · exact h

end Alphabet

/-! ### Keys -/

/-- The character that the key types, if it types one, is of `P`. -/
def KeyEvent.Over (P : Char → Prop) (event : KeyEvent) : Prop :=
  ∀ c, event.printable = some c → P c

instance [DecidablePred P] (event : KeyEvent) : Decidable (event.Over P) :=
  Option.decidableForallMem event.printable

/-- The segment that a key leads to, what it commits and what it leaves in the dictionaries are over
`P`. -/
structure Outcome.Over (P : Char → Prop) (outcome : Outcome) : Prop where
  segment : outcome.segment.Over P
  committed : Text.Over P outcome.committed
  shelf : outcome.shelf.Over P

theorem Outcome.Over.after {outcome : Outcome} (h : outcome.Over P) {committed : Text}
    (hcommitted : Text.Over P committed) : (outcome.after committed).Over P :=
  ⟨h.segment, Text.over_append.mpr ⟨hcommitted, h.committed⟩, h.shelf⟩

namespace Situation

/-- The table and the dictionaries that a key finds are over `P`. -/
structure Over (P : Char → Prop) (s : Situation) : Prop where
  table : s.table.Over P
  shelf : s.shelf.Over P

theorem over_registration {key : ConversionKey} (hkey : key.Over P) (origin : Origin) :
    (registration key origin).Over P :=
  ⟨hkey, Text.over_nil, Segment.over_idle⟩

/-- The keyword of a reading is part of it. -/
theorem over_autoStartKey? {s : Situation} {b : Buffer} (hb : b.Over P) {key : ConversionKey}
    (h : s.autoStartKey? b = some key) : key.Over P := by
  obtain ⟨hokuri, hkana⟩ := kana_of_autoStartKey? h
  have hparts := hb.kana
  rw [← hkana, Text.over_append] at hparts
  refine ⟨hparts.1, ?_, hparts.2⟩
  rw [hokuri]
  exact Text.over_nil

variable {s : Situation} (hs : s.Over P) {event : KeyEvent}
include hs

theorem over_commits {segment : Segment} (hsegment : segment.Over P) {committed : Text}
    (hcommitted : Text.Over P committed) : (s.commits segment committed).Over P :=
  ⟨hsegment, hcommitted, hs.shelf⟩

theorem over_moves {segment : Segment} (hsegment : segment.Over P) :
    (s.moves segment).Over P :=
  over_commits hs hsegment Text.over_nil

theorem over_ignores {segment : Segment} (hsegment : segment.Over P) :
    (s.ignores segment).Over P :=
  ⟨hsegment, Text.over_nil, hs.shelf⟩

theorem over_conversion {key : ConversionKey} (hkey : key.Over P) (origin : Origin) :
    (s.conversion key origin).Over P := by
  unfold conversion
  split
  · rename_i selection hfirst
    exact Selection.over_first? hkey (hs.shelf.candidates hkey) hfirst
  · split
    · exact over_registration hkey origin
    · exact Segment.over_editing hkey origin

theorem over_completion {stay : Segment} (hstay : stay.Over P) {yomi : Text}
    (hyomi : Text.Over P yomi) (origin : Origin) : (s.completion stay yomi origin).Over P := by
  unfold completion
  split
  · rename_i selection hfirst
    exact Selection.over_first? (ConversionKey.over_plain hyomi) hs.shelf.completions hfirst
  · exact hstay

theorem over_afterTyping {old b : Buffer} (hb : b.Over P) : (s.afterTyping old b).Over P := by
  unfold afterTyping
  split
  · exact over_conversion hs hb.key _
  · split
    · split
      · rename_i hkey
        exact over_conversion hs (over_autoStartKey? hb hkey) _
      · exact hb
    · exact hb

/-! #### Keys that resolve no romaji -/

theorem over_popReading {b : Buffer} (hb : b.Over P) : (s.popReading b).Over P := by
  unfold popReading
  dsimp only
  refine over_moves hs ?_
  split
  · exact Segment.over_idle
  · exact hb.pop

theorem over_abbreviate (hevent : event.Over P) {letters : Text} (hletters : Text.Over P letters) :
    (s.abbreviate letters event).Over P := by
  have hstay : (Segment.abbreviation letters).Over P := hletters
  unfold abbreviate
  dsimp only
  -- convert and complete, each first without letters, then commit, delete and typing
  split_ifs
  · exact over_moves hs hstay
  · exact over_moves hs (over_conversion hs (ConversionKey.over_plain hletters) _)
  · exact over_moves hs hstay
  · exact over_moves hs (over_completion hs hstay hletters _)
  · exact over_commits hs Segment.over_idle hletters
  · exact over_moves hs Segment.over_idle
  · exact over_moves hs hletters.dropLast
  · split
    · exact over_ignores hs hstay
    · rename_i c hc
      exact over_moves hs (Text.over_append.mpr ⟨hletters, Text.over_singleton (hevent c hc)⟩)

theorem over_purgeCurrent (selection : Selection) : (s.purgeCurrent selection).Over P :=
  ⟨Segment.over_idle, Text.over_nil, hs.shelf.purge _ _ _⟩

/-! #### Writing -/

theorem over_registered {reading : Text} (hreading : Text.Over P reading) {entry : Entry}
    (hsurface : Text.Over P entry.surface) : Shelf.Over P (s.registered reading entry) := by
  rcases s.registered_cases reading entry with hrefused | ⟨place, -, hregistered⟩
  · rw [hrefused]
    exact hs.shelf
  · exact hs.shelf.registered hregistered hreading hsurface

section

variable (hP : Alphabet P)
include hP

theorem over_commitCurrent {selection : Selection} (h : selection.Over P) :
    (s.commitCurrent selection).Over P := by
  have hcurrent := h.current
  exact ⟨Segment.over_idle, hcurrent.output hP,
    over_registered hs (hcurrent.key.headword hP) hcurrent.surface⟩

theorem over_confirm {key : ConversionKey} (hkey : key.Over P) (origin : Origin) {word : Text}
    (hword : Text.Over P word) : (s.confirm key origin word).Over P := by
  unfold confirm
  split
  · exact over_moves hs (Segment.over_editing hkey origin)
  · have hcandidate : Candidate.Over P ⟨key, { surface := word }⟩ := ⟨hkey, hword⟩
    exact ⟨Segment.over_idle, hcandidate.output hP,
      over_registered hs (hkey.headword hP) hword⟩

/-! #### Composing a reading -/

variable {b : Buffer}

theorem over_commitKana {form : Text → Text} (hform : ∀ kana, Text.Over P kana →
    Text.Over P (form kana)) (hb : b.Over P) : (s.commitKana form b).Over P :=
  over_commits hs Segment.over_idle (hform _ (hb.flush hP hs.table).text)

theorem over_convert (hb : b.Over P) : (s.convert b).Over P := by
  unfold convert
  dsimp only
  split
  · exact over_moves hs Segment.over_idle
  · exact over_moves hs (over_conversion hs (hb.flush hP hs.table).key _)

theorem over_completeReading (hb : b.Over P) : (s.completeReading b).Over P := by
  unfold completeReading
  split
  · exact over_moves hs hb
  · have hflushed := hb.flush hP hs.table
    have hstay : (Segment.composing (b.flush s.table)).Over P := hflushed
    exact over_moves hs (over_completion hs hstay hflushed.kana _)

theorem over_composeCommand? (hb : b.Over P) {outcome : Outcome}
    (h : s.composeCommand? b event = some outcome) : outcome.Over P := by
  unfold composeCommand? at h
  -- convert, commit, delete, complete, the other kana, and a new reading
  split_ifs at h <;> obtain rfl := Option.some.inj h
  · exact over_convert hs hP hb
  · exact over_commitKana hs hP (fun _ => hP.over_render s.mode) hb
  · exact over_popReading hs hb
  · exact over_completeReading hs hP hb
  · exact over_commitKana hs hP (fun _ => hP.over_renderFlipped s.mode) hb
  · exact over_moves hs hb

theorem over_typeReading (hb : b.Over P) {c : Char} (hc : P c) : (s.typeReading b c).Over P :=
  over_moves hs (over_afterTyping hs (hb.type hP hs.table hc))

theorem over_openReading {c : Char} (hc : P c) : (s.openReading event c).Over P := by
  unfold openReading
  split
  · rename_i h
    exact over_composeCommand? hs hP Buffer.over_empty h
  · exact over_typeReading hs hP Buffer.over_empty hc

/-! #### Typing directly -/

section

variable {tail : Text} (htail : Text.Over P tail) (hevent : event.Over P)
include htail

theorem over_flushed : Text.Over P (s.flushed tail) :=
  hP.over_render _ (RomajiTable.over_flush hs.table hP htail)

theorem over_directCommand? {outcome : Outcome}
    (h : s.directCommand? tail event = some outcome) : outcome.Over P := by
  have hflushed := over_flushed hs hP htail
  unfold directCommand? at h
  dsimp only at h
  -- three changes of the mode, then a reading and an abbreviation that start
  split_ifs at h <;> obtain rfl := Option.some.inj h
  · exact ⟨Segment.over_idle, hflushed, hs.shelf⟩
  · exact ⟨Segment.over_idle, hflushed, hs.shelf⟩
  · exact ⟨Segment.over_idle, hflushed, hs.shelf⟩
  · exact ⟨Buffer.over_empty, hflushed, hs.shelf⟩
  · exact ⟨Text.over_nil, hflushed, hs.shelf⟩

theorem over_typeDirect {c : Char} (hc : P c) : (s.typeDirect tail event c).Over P := by
  unfold typeDirect
  split
  · exact (over_openReading hs hP hc).after (over_flushed hs hP htail)
  · have hstep := RomajiTable.over_feed hs.table hP htail hc
    exact ⟨hstep.tail, hP.over_render _ hstep.emitted, hs.shelf⟩

include hevent

theorem over_latin : (s.latin tail event).Over P := by
  unfold latin
  split
  · exact ⟨htail, Text.over_nil, hs.shelf⟩
  · split
    · exact over_ignores hs htail
    · rename_i c hc
      exact ⟨htail, Text.over_singleton (hP.latinChar s.mode (hevent c hc)), hs.shelf⟩

theorem over_romaji : (s.romaji tail event).Over P := by
  have hflushed := over_flushed hs hP htail
  unfold romaji
  dsimp only
  -- cancel, delete, the way back to hiragana, commit, and then what is typed
  split_ifs
  · exact ⟨Segment.over_idle, Text.over_nil, hs.shelf⟩
  · exact ⟨htail.dropLast, Text.over_nil, hs.shelf⟩
  · exact ⟨Segment.over_idle, hflushed, hs.shelf⟩
  · exact ⟨Segment.over_idle, hflushed, hs.shelf⟩
  · split
    · exact over_ignores hs htail
    · rename_i c hc
      split
      · rename_i h
        exact over_directCommand? hs hP htail h
      · exact over_typeDirect hs hP htail (hevent c hc)

theorem over_direct : (s.direct tail event).Over P := by
  unfold direct
  split
  · exact over_latin hs hP htail hevent
  · exact over_romaji hs hP htail hevent

end

/-! #### Other keys -/

section

variable (hevent : event.Over P)
include hevent

/-- What follows on a first outcome finds the dictionaries that it leaves. -/
theorem over_andThen_direct {first : Outcome} (h : first.Over P) :
    (first.andThen s fun s => s.direct [] event).Over P := by
  have hleft : Over P { s with mode := first.mode, shelf := first.shelf } := ⟨hs.table, h.shelf⟩
  exact (over_direct hleft hP Text.over_nil hevent).after h.committed

theorem over_compose (hb : b.Over P) : (s.compose b event).Over P := by
  unfold compose
  split
  · rename_i h
    exact over_composeCommand? hs hP hb h
  · split
    · exact over_ignores hs hb
    · rename_i c hc
      split
      · exact over_andThen_direct hs hP hevent
          (over_commitKana hs hP (fun _ => hP.over_render s.mode) hb)
      · exact over_typeReading hs hP hb (hevent c hc)

theorem over_commitAndType {stay : Segment} (hstay : stay.Over P) {selection : Selection}
    (h : selection.Over P) : (s.commitAndType stay selection event).Over P := by
  unfold commitAndType
  split
  · exact over_ignores hs hstay
  · obtain ⟨hsegment, hcommitted, hshelf⟩ :=
      over_andThen_direct hs hP hevent (over_commitCurrent hs hP h)
    exact ⟨hsegment, hcommitted, hshelf⟩

theorem over_select {selection : Selection} (h : selection.Over P) :
    (s.select selection event).Over P := by
  have hstay : (Segment.selecting selection).Over P := h
  unfold select
  dsimp only
  -- next, previous, purge, register (which may be refused), delete, commit and typing
  split_ifs
  · exact over_moves hs ⟨h.key, h.candidates⟩
  · exact over_moves hs ⟨h.key, h.candidates⟩
  · exact over_purgeCurrent hs selection
  · exact over_moves hs (over_registration h.key _)
  · exact over_moves hs hstay
  · exact over_moves hs (Segment.over_editing h.key _)
  · exact over_commitCurrent hs hP h
  · exact over_commitAndType hs hP hevent hstay h

theorem over_complete {selection : Selection} (h : selection.Over P) :
    (s.complete selection event).Over P := by
  have hstay : (Segment.completing selection).Over P := h
  unfold complete
  dsimp only
  -- next, previous, convert, delete, purge, commit and typing
  split_ifs
  · exact over_moves hs ⟨h.key, h.candidates⟩
  · exact over_moves hs ⟨h.key, h.candidates⟩
  · exact over_moves hs (over_conversion hs h.current.key _)
  · exact over_moves hs (Segment.over_editing h.key _)
  · exact over_purgeCurrent hs selection
  · exact over_commitCurrent hs hP h
  · exact over_commitAndType hs hP hevent hstay h

end

theorem over_registrationCommand? {key : ConversionKey} {origin : Origin} {text tail : Text}
    (h : (Segment.registering key origin text (.direct tail)).Over P) {outcome : Outcome}
    (ho : s.registrationCommand? key origin text tail event = some outcome) :
    outcome.Over P := by
  obtain ⟨hkey, htext, htail⟩ := h
  unfold registrationCommand? at ho
  -- the word is confirmed, or loses its last character
  split_ifs at ho <;> obtain rfl := Option.some.inj ho
  · exact over_confirm hs hP hkey origin (Text.over_append.mpr ⟨htext, over_flushed hs hP htail⟩)
  · exact over_moves hs ⟨hkey, htext.dropLast, htail⟩

/-- **Over an alphabet a key leads to nothing outside it**: not in the segment, nor in what is
committed, nor in the dictionaries. -/
theorem over_handle (hevent : event.Over P) {segment : Segment} (h : segment.Over P) :
    (s.handle segment event).Over P := by
  refine handle_induction (P := fun s segment outcome => s.Over P → segment.Over P →
    outcome.Over P) event ?cancelled ?direct ?composing ?abbreviation ?selecting ?completing
    ?command ?inside s segment hs h
  case cancelled =>
    intro s segment _ _ hs _
    exact over_moves hs Segment.over_idle
  case direct =>
    intro s tail hs h
    exact over_direct hs hP h hevent
  case composing =>
    intro s b _ hs h
    exact over_compose hs hP hevent h
  case abbreviation =>
    intro s letters _ hs h
    exact over_abbreviate hs hevent h
  case selecting =>
    intro s selection _ hs h
    exact over_select hs hP hevent h
  case completing =>
    intro s selection _ hs h
    exact over_complete hs hP hevent h
  case command =>
    intro s key origin text tail outcome _ hcommand hs h
    exact over_registrationCommand? hs hP h hcommand
  case inside =>
    intro s key origin text inner _ ih hs h
    -- what is committed inside becomes part of the word
    obtain ⟨hinner, hcommitted, hshelf⟩ := ih ⟨hs.table, hs.shelf⟩ h.2.2
    exact ⟨⟨h.1, Text.over_append.mpr ⟨h.2.1, hcommitted⟩, hinner⟩, Text.over_nil, hshelf⟩

end

end Situation

/-! ### What is looked up -/

namespace Situation

/-- The key has the segment itself, not one inside it, ask the dictionaries for the reading: for
candidates, for completions, or to write to it. -/
inductive Asks (s : Situation) (event : KeyEvent) : Segment → Text → Prop
  | candidates {segment reading : Segment} {key : ConversionKey}
      (looksUp : s.LooksUp event segment reading (.conversion key)) :
      Asks s event segment key.headword
  | completions {segment reading : Segment} {yomi : Text}
      (looksUp : s.LooksUp event segment reading (.completion yomi)) : Asks s event segment yomi
  | completed {selection : Selection}
      (key : s.settings.keymap.Gives [.cancel, .complete, .previousCompletion] .convert event) :
      Asks s event (.completing selection) selection.current.key.headword
  | written {segment : Segment} {w : Write} (writes : s.Writes event segment w) :
      Asks s event segment w.reading

section

variable {s : Situation} (hs : s.Over P) (hP : Alphabet P) {event : KeyEvent}
  (hevent : event.Over P)
include hs hP hevent

/-- The reading that a character goes to is over the alphabet, whether it is the old one or a new
one. -/
theorem Feeds.over {b old : Buffer} {c : Char} (h : s.Feeds event b old c) (hb : b.Over P) :
    (old.type s.table c).Over P := by
  have hold : old.Over P := by
    rcases h.into with ⟨-, rfl⟩ | ⟨-, rfl, -⟩
    · exact hb
    · exact Buffer.over_empty
  exact hold.type hP hs.table (hevent c h.printable)

theorem LooksUp.over {segment reading : Segment} {lookup : Lookup}
    (h : s.LooksUp event segment reading lookup) (hsegment : segment.Over P) :
    lookup.key.Over P := by
  cases h with
  | convert key kana => exact (Buffer.Over.flush hP hs.table hsegment).key
  | complete key okuri =>
    exact ConversionKey.over_plain (Buffer.Over.flush hP hs.table hsegment).kana
  | okurigana feeds complete => exact (feeds.over hs hP hevent hsegment).key
  | keyword feeds grows okuri start =>
    exact over_autoStartKey? (feeds.over hs hP hevent hsegment) start
  | convertLetters key written => exact ConversionKey.over_plain hsegment
  | completeLetters key written => exact ConversionKey.over_plain hsegment

/-- **What is looked up is over the alphabet.** -/
theorem Asks.over {segment : Segment} {asked : Text} (h : s.Asks event segment asked)
    (hsegment : segment.Over P) : Text.Over P asked := by
  cases h with
  | candidates looksUp => exact (looksUp.over hs hP hevent hsegment).headword hP
  | completions looksUp => exact (looksUp.over hs hP hevent hsegment).yomi
  | completed key =>
    have hselection : Selection.Over P _ := hsegment
    exact hselection.current.key.headword hP
  | written writes =>
    have hshown : ∀ {selection commands}, segment.Shows selection commands →
        selection.Over P := by
      intro selection commands shown
      cases shown with
      | selecting => exact hsegment
      | completing => exact hsegment
    cases writes with
    | commit shown key => exact (hshown shown).current.key.headword hP
    | type shown free printable => exact (hshown shown).current.key.headword hP
    | purge shown key => exact (hshown shown).current.key.headword hP
    | confirm command stays word => exact ConversionKey.Over.headword hP hsegment.1

end

end Situation

/-! ### Runs -/

/-- What the host types or registers is over `P`. -/
def Request.Over (P : Char → Prop) : Request → Prop
  | .press event => event.Over P
  | .register reading entry => Text.Over P reading ∧ Text.Over P entry.surface
  | .registerAt _ reading entry => Text.Over P reading ∧ Text.Over P entry.surface
  | _ => True

instance [DecidablePred P] (request : Request) : Decidable (request.Over P) := by
  cases request <;> unfold Request.Over <;> infer_instance

namespace Session

/-- All text of the session and its dictionaries is over `P`. -/
structure Over (P : Char → Prop) (session : Session) : Prop where
  table : session.context.table.Over P
  segment : session.context.segment.Over P
  output : Text.Over P session.context.output
  shelf : session.shelf.Over P

/-- The key has the session ask its dictionaries for the reading. -/
def Asks (session : Session) (event : KeyEvent) (asked : Text) : Prop :=
  ∃ depth part, session.context.segment.within? depth = some part ∧
    (session.situation.deeper depth).Asks event part asked

variable {session : Session}

theorem over_start (settings : Settings) {table : RomajiTable} (htable : table.Over P)
    (layers : Layers) {shelf : Shelf} (hshelf : shelf.Over P) :
    (start settings table layers shelf).Over P :=
  ⟨htable, Segment.over_idle, Text.over_nil, hshelf⟩

theorem Over.situation (h : session.Over P) : session.situation.Over P :=
  ⟨h.table, h.shelf⟩

theorem over_serve (hP : Alphabet P) (h : session.Over P) {request : Request}
    (hrequest : request.Over P) : (session.serve request).Over P := by
  cases request with
  | press event =>
    by_cases hr : event.isRelease = true
    · rw [serve, press_of_release session hr]
      exact h
    · rw [serve, press_of_not_release session (by simpa using hr)]
      obtain ⟨hsegment, hcommitted, hshelf⟩ :=
        Situation.over_handle h.situation hP hrequest h.segment
      exact ⟨h.table, hsegment, Text.over_append.mpr ⟨h.output, hcommitted⟩, hshelf⟩
  | setMode mode => exact ⟨h.table, h.segment, h.output, h.shelf⟩
  | reset => exact ⟨h.table, Segment.over_idle, h.output, h.shelf⟩
  | poll => exact ⟨h.table, h.segment, Text.over_nil, h.shelf⟩
  | register reading entry =>
    refine ⟨h.table, h.segment, h.output, ?_⟩
    have hshelf := Situation.over_registered h.situation hrequest.1 hrequest.2
    rwa [Situation.registered_eq_afterWrite] at hshelf
  | purge reading surface => exact ⟨h.table, h.segment, h.output, h.shelf.purge _ _ _⟩
  | registerAt place reading entry =>
    refine ⟨h.table, h.segment, h.output, ?_⟩
    show Shelf.Over P (session.shelf.afterWrite (session.shelf.registerAt place reading entry))
    cases hok : session.shelf.registerAt place reading entry with
    | error e => exact h.shelf
    | ok result =>
      exact h.shelf.registered (Shelf.registered_of_registerAt hok) hrequest.1 hrequest.2
  | purgeAt place reading surface =>
    refine ⟨h.table, h.segment, h.output, ?_⟩
    show Shelf.Over P (session.shelf.afterWrite (session.shelf.purgeAt place reading surface))
    cases hok : session.shelf.purgeAt place reading surface with
    | error e => exact h.shelf
    | ok result => exact h.shelf.purgeAt hok

/-- **Over an alphabet a run leads to nothing outside it.** -/
theorem over_run (hP : Alphabet P) (h : session.Over P) {requests : List Request}
    (hrequests : ∀ request ∈ requests, request.Over P) : (session.run requests).Over P := by
  induction requests generalizing session with
  | nil => exact h
  | cons request requests ih =>
    rw [List.forall_mem_cons] at hrequests
    exact ih (over_serve hP h hrequests.1) hrequests.2

theorem Over.asked (h : session.Over P) (hP : Alphabet P) {event : KeyEvent}
    (hevent : event.Over P) {asked : Text} (hasks : session.Asks event asked) :
    Text.Over P asked := by
  obtain ⟨depth, part, hpart, hasks⟩ := hasks
  have hdeeper : (session.situation.deeper depth).Over P := ⟨h.table, h.shelf⟩
  exact hasks.over hdeeper hP hevent (h.segment.within? hpart)

end Session

/-! ### Marks -/

/-- The marks of what is going on, and the one of okurigana. -/
def marks : Text := ['▽', '▼', '■', '【', '】', '*']

/-- A character in lower case is as it was, or a letter. -/
theorem toLower_eq_or_isLower (c : Char) : c.toLower = c ∨ c.toLower.isLower = true := by
  unfold Char.toLower
  split
  · right
    rename_i h
    have hfirst : 65 ≤ c.val.toNat := h.1
    have hlast : c.val.toNat ≤ 90 := h.2
    have hcode : (c.val + ('a'.val - 'A'.val)).toNat = c.val.toNat + 32 := by
      rw [UInt32.toNat_add]
      show (c.val.toNat + 32) % 4294967296 = _
      omega
    refine Bool.and_eq_true_iff.mpr ⟨decide_eq_true ?_, decide_eq_true ?_⟩
    · show 97 ≤ (c.val + ('a'.val - 'A'.val)).toNat
      omega
    · show (c.val + ('a'.val - 'A'.val)).toNat ≤ 122
      omega
  · exact Or.inl rfl

/-- A character in full width is as it was, the wide space, or one of the full-width forms. -/
theorem fullWidth_cases (c : Char) :
    fullWidth c = c ∨ (fullWidth c).toNat = 0x3000 ∨ 0xFF01 ≤ (fullWidth c).toNat := by
  unfold fullWidth
  split
  · exact Or.inr (Or.inl rfl)
  · split
    · rename_i h
      simp only [codeWithin, Bool.and_eq_true, decide_eq_true_eq] at h
      have hvalid : (c.toNat - 0x21 + 0xFF01).isValidChar := Or.inr ⟨by omega, by omega⟩
      right
      right
      rw [Char.ofNat, dif_pos hvalid]
      show 0xFF01 ≤ c.toNat - 0x21 + 0xFF01
      omega
    · exact Or.inl rfl

/-- A character in katakana is as it was, or a letter of the katakana block. -/
theorem katakanaChar_cases (c : Char) :
    katakanaChar c = c ∨ 0x30A1 ≤ (katakanaChar c).toNat := by
  cases h : hasKatakanaTwin c with
  | false =>
    left
    rw [katakanaChar, h, if_neg Bool.false_ne_true]
  | true =>
    right
    rw [toNat_katakanaChar h]
    simp only [hasKatakanaTwin, codeWithin, Bool.or_eq_true, Bool.and_eq_true,
      decide_eq_true_eq] at h
    omega

/-- A character in hiragana is as it was, or has a twin in katakana. -/
theorem hiraganaChar_cases (c : Char) :
    hiraganaChar c = c ∨ hasKatakanaTwin (hiraganaChar c) = true := by
  unfold hiraganaChar
  split
  · rename_i h
    rw [Bool.and_eq_true] at h
    exact Or.inr h.2
  · exact Or.inl rfl

/-- The marks are in none of the blocks that the changes of form lead to. -/
theorem blocks_of_mem_marks {mark : Char} (hmark : mark ∈ marks) :
    mark.isLower = false ∧ mark.toNat ≠ 0x3000 ∧ mark.toNat < 0x30A1 ∧
      hasKatakanaTwin mark = false := by
  have hall : Text.Over (fun mark => mark.isLower = false ∧ mark.toNat ≠ 0x3000 ∧
      mark.toNat < 0x30A1 ∧ hasKatakanaTwin mark = false) marks := by
    decide
  exact hall mark hmark

/-- None of the characters that the engine writes by itself is a mark. -/
theorem written_ne_of_mem_marks {mark : Char} (hmark : mark ∈ marks) :
    Text.Over (· ≠ mark) ['ん', 'っ', '#'] ∧ Text.Over (· ≠ mark) "０１２３４５６７８９".toList ∧
      Text.Over (· ≠ mark) "〇一二三四五六七八九十百千万億兆京".toList := by
  have hall : Text.Over (fun mark => Text.Over (· ≠ mark) ['ん', 'っ', '#'] ∧
      Text.Over (· ≠ mark) "０１２３４５６７８９".toList ∧
      Text.Over (· ≠ mark) "〇一二三四五六七八九十百千万億兆京".toList) marks := by
    decide
  exact hall mark hmark

/-- **Without one of the marks, all other characters are an alphabet**: the engine does not write
the mark, nor make it of another character. -/
theorem alphabet_ne_of_mark {mark : Char} (hmark : mark ∈ marks) : Alphabet (· ≠ mark) := by
  obtain ⟨hlower, hspace, hcode, htwin⟩ := blocks_of_mem_marks hmark
  obtain ⟨hkana, hdigits, hnumerals⟩ := written_ne_of_mem_marks hmark
  constructor
  case nasal => exact hkana 'ん' (by decide)
  case double => exact hkana 'っ' (by decide)
  case hash => exact hkana '#' (by decide)
  case digit => exact hdigits
  case numeral => exact hnumerals
  case letter =>
    rintro c hc rfl
    exact nomatch hc.symm.trans hlower
  -- a change of form leaves the character, which is not the mark, or leads to another block
  case toLower =>
    intro c hc heq
    rcases toLower_eq_or_isLower c with hsame | hletter
    · exact hc (hsame.symm.trans heq)
    · rw [heq, hlower] at hletter
      exact nomatch hletter
  case fullWidth =>
    intro c hc heq
    rcases fullWidth_cases c with hsame | hwide | hwide
    · exact hc (hsame.symm.trans heq)
    · rw [heq] at hwide
      exact hspace hwide
    · rw [heq] at hwide
      omega
  case katakana =>
    intro c hc heq
    rcases katakanaChar_cases c with hsame | hblock
    · exact hc (hsame.symm.trans heq)
    · rw [heq] at hblock
      omega
  case hiragana =>
    intro c hc heq
    rcases hiraganaChar_cases c with hsame | htwice
    · exact hc (hsame.symm.trans heq)
    · rw [heq, htwin] at htwice
      exact nomatch htwice

/-! ### What comes out of a session -/

namespace Session

/-- What the host can take from the session or read of it, what is stored in the dictionaries, and
what any next key over `P` has them asked for, is over `P`. -/
structure Keeps (P : Char → Prop) (session : Session) : Prop where
  output : Text.Over P session.context.output
  stored : session.shelf.Over P
  text : Text.Over P session.context.segment.buffer.text
  pending : Text.Over P session.context.segment.buffer.tail
  asked : ∀ event asked, event.Over P → session.Asks event asked → Text.Over P asked

theorem Over.keeps {session : Session} (h : session.Over P) (hP : Alphabet P) :
    session.Keeps P where
  output := h.output
  stored := h.shelf
  text := h.segment.buffer.text
  pending := h.segment.buffer.tail
  asked _ _ hevent hasks := h.asked hP hevent hasks

/-- **The marks of what is shown never leak.**  Over every alphabet a run that is given nothing
outside it commits, stores, composes and looks up nothing outside it; and without one of the marks
the other characters are an alphabet, so that it comes from the table, from the dictionaries as they
were, from what was typed or from what the host registered, or not at all. -/
theorem marks_kept_out (settings : Settings) (table : RomajiTable) (layers : Layers)
    (shelf : Shelf) (requests : List Request) :
    (∀ P : Char → Prop, Alphabet P → table.Over P → shelf.Over P →
      (∀ request ∈ requests, request.Over P) →
      ((start settings table layers shelf).run requests).Keeps P) ∧
    ∀ mark ∈ marks, table.Over (· ≠ mark) → shelf.Over (· ≠ mark) →
      (∀ request ∈ requests, request.Over (· ≠ mark)) →
      ((start settings table layers shelf).run requests).Keeps (· ≠ mark) := by
  have hkept : ∀ P : Char → Prop, Alphabet P → table.Over P → shelf.Over P →
      (∀ request ∈ requests, request.Over P) →
      ((start settings table layers shelf).run requests).Keeps P := by
    intro P hP htable hshelf hrequests
    exact (over_run hP (over_start settings htable layers hshelf) hrequests).keeps hP
  refine ⟨hkept, ?_⟩
  intro mark hmark
  exact hkept (· ≠ mark) (alphabet_ne_of_mark hmark)

/-- A word with okurigana is committed, and typed once more: marks are shown and kept nowhere. -/
theorem marks_kept_out_okuri :
    let shelf : Shelf := [Dictionary.fixed Dictionary.systemName
      [("おくr".toList, [{ surface := "送".toList }])]]
    let requests := "OkuRi\nOkuR".toList.map fun c =>
      .press (if c = '\n' then ⟨.named .enter, .none⟩ else .ofChar c)
    let session := (start Settings.builtin RomajiTable.builtin [0] shelf).run requests
    (∀ mark ∈ ['▽', '*'], RomajiTable.builtin.Over (· ≠ mark) ∧ Shelf.Over (· ≠ mark) shelf ∧
      ∀ request ∈ requests, request.Over (· ≠ mark)) ∧
    (session.context.output = "送り".toList ∧ session.context.preedit = "▽おく*r".toList) ∧
    session.Keeps (· ≠ '▽') ∧ '*' ∈ marks ∧ session.Keeps (· ≠ '*') := by
  intro shelf requests session
  have hgiven : ∀ mark ∈ ['▽', '*'], RomajiTable.builtin.Over (· ≠ mark) ∧
      Shelf.Over (· ≠ mark) shelf ∧ ∀ request ∈ requests, request.Over (· ≠ mark) := by
    have htable : Text.Over (fun mark => RomajiTable.builtin.Over (· ≠ mark)) ['▽', '*'] := by
      decide +kernel
    have hrequests : Text.Over (fun mark => ∀ request ∈ requests, request.Over (· ≠ mark))
        ['▽', '*'] := by
      decide +kernel
    have hgroups : Text.Over (fun mark => ∀ d ∈ shelf, ∀ group ∈ d.words.items,
        Text.Over (· ≠ mark) group.1 ∧ ∀ entry ∈ group.2, Text.Over (· ≠ mark) entry.surface)
        ['▽', '*'] := by
      decide +kernel
    intro mark hmark
    exact ⟨htable mark hmark, Shelf.over_of_groups (hgroups mark hmark), hrequests mark hmark⟩
  obtain ⟨halphabet, hmarks⟩ :=
    marks_kept_out Settings.builtin RomajiTable.builtin [0] shelf requests
  obtain ⟨htable, hshelf, hrequests⟩ := hgiven '*' (by decide)
  obtain ⟨htable', hshelf', hrequests'⟩ := hgiven '▽' (by decide)
  refine ⟨hgiven, by decide +kernel, ?_, by decide, ?_⟩
  · exact halphabet _ (alphabet_ne_of_mark (by decide)) htable' hshelf' hrequests'
  · exact hmarks '*' (by decide) htable hshelf hrequests

end Session

end KanaKanji

/-
The representation invariant of sessions.

`Machine.Clause` says what has to hold of the buffer of a machine and of what it is at, by its
state: while romaji are typed directly the buffer has no kana and no okurigana, okurigana of a
reading stand behind a stem, nothing is left in the buffer while a candidate is chosen, the
candidates belong to the key they were looked up for, and so on.  A machine is well formed
(`Machine.WellFormed`) when the clause holds of it and of all machines inside it and no more
registrations are open than there is room for, and a segment when its machine is.

* `Situation.wellFormed_handle`: every key leads from a well-formed segment to one;
* `Session.WellFormed.run`: hence sessions stay well formed.

Design notes: the room for registrations is counted down from the limit, so that the segment
inside a registration is well formed for the room that is left there.
-/
import KanaKanji.Proofs.Dictionary.Candidates
import KanaKanji.Proofs.Romaji.Tail
import KanaKanji.Proofs.Session.Run
import KanaKanji.Session.Machine
import Mathlib.Tactic.SplitIfs

namespace KanaKanji

/-! ### The clauses -/

/-- A key that can be converted or registered: it has a reading, okurigana and the suffix that
ends a reading exclude one another, and an abbreviation has no okurigana. -/
structure ConversionKey.WellFormed (key : ConversionKey) (origin : Origin) : Prop where
  yomi_ne_nil : key.yomi ≠ []
  okuri_or_suffix : key.okuri = [] ∨ key.suffix = []
  plain : origin = .abbreviation → key.okuri = []

/-- A reading that can be typed on: open okurigana have a stem before them, and the tail is
one. -/
structure Buffer.WellFormed (table : RomajiTable) (b : Buffer) : Prop where
  stem : b.okuri ≠ none → b.kana ≠ []
  tail : table.IsTail b.tail

/-- The candidates for a key: each carries it, and none has the surface of another. -/
structure Shortlist.IsConversion (list : Shortlist) : Prop where
  key : list.key.WellFormed list.origin
  keys : ∀ candidate ∈ list.candidates, candidate.key = list.key
  surfaces : (list.candidates.map fun candidate => candidate.entry.surface).Nodup

/-- The completions of a reading: plain keys whose readings start with it. -/
structure Shortlist.IsCompletion (list : Shortlist) : Prop where
  key : list.key.WellFormed list.origin
  plain : ∀ candidate ∈ list.candidates, candidate.key.okuri = [] ∧ candidate.key.suffix = []
  stem : ∀ candidate ∈ list.candidates, list.key.yomi <+: candidate.key.yomi

namespace Machine

/-- What holds of a machine itself, by its state. -/
def Clause (table : RomajiTable) (m : Machine) : Prop :=
  table.IsTail m.buffer.tail ∧
  match m.state with
  | .direct => m.buffer.kana = [] ∧ m.buffer.okuri = none
  | .composing => m.buffer.okuri ≠ none → m.buffer.kana ≠ []
  | .abbreviation => m.buffer.okuri = none ∧ m.buffer.tail = []
  | .selecting list =>
    m.buffer = .empty ∧ list.index < list.candidates.length ∧ list.IsConversion
  | .completing list =>
    m.buffer = .empty ∧ list.index < list.candidates.length ∧ list.IsCompletion
  | .registering key origin _ _ _ => m.buffer = .empty ∧ key.WellFormed origin

/-- The clause holds of the machine and of all inside it, and so many registrations at most are
open. -/
structure WellFormed (table : RomajiTable) (room : Nat) (m : Machine) : Prop where
  clauses : ∀ part ∈ m.chain, part.Clause table
  depth_le : m.depth ≤ room

end Machine

namespace Segment

/-- The machine of the segment is well formed. -/
def WellFormed (table : RomajiTable) (room : Nat) (segment : Segment) : Prop :=
  (Machine.ofSegment segment).WellFormed table room

variable {table : RomajiTable} {room : Nat}

/-! ### Well-formed segments by their kinds -/

theorem wellFormed_iff {segment : Segment} : segment.WellFormed table room ↔
    (∀ part ∈ (Machine.ofSegment segment).chain, part.Clause table) ∧
      (Machine.ofSegment segment).depth ≤ room :=
  ⟨fun h => ⟨h.clauses, h.depth_le⟩, fun h => ⟨h.1, h.2⟩⟩

/-- Without a registration the clause of the segment is all. -/
theorem wellFormed_iff_clause {segment : Segment}
    (h : (Machine.ofSegment segment).chain = [Machine.ofSegment segment])
    (hdepth : (Machine.ofSegment segment).depth = 0) :
    segment.WellFormed table room ↔ (Machine.ofSegment segment).Clause table := by
  rw [wellFormed_iff, h, hdepth]
  simp

@[simp] theorem wellFormed_direct {tail : Text} :
    (direct tail).WellFormed table room ↔ table.IsTail tail := by
  rw [wellFormed_iff_clause rfl rfl]
  simp [Machine.Clause, Machine.ofSegment]

@[simp] theorem wellFormed_idle : idle.WellFormed table room :=
  wellFormed_direct.mpr RomajiTable.isTail_nil

@[simp] theorem wellFormed_composing {b : Buffer} :
    (composing b).WellFormed table room ↔ b.WellFormed table := by
  rw [wellFormed_iff_clause rfl rfl]
  exact ⟨fun h => ⟨h.2, h.1⟩, fun h => ⟨h.tail, h.stem⟩⟩

@[simp] theorem wellFormed_abbreviation {letters : Text} :
    (abbreviation letters).WellFormed table room := by
  rw [wellFormed_iff_clause rfl rfl]
  exact ⟨RomajiTable.isTail_nil, rfl, rfl⟩

@[simp] theorem wellFormed_selecting {selection : Selection} :
    (selecting selection).WellFormed table room ↔ selection.shortlist.IsConversion := by
  rw [wellFormed_iff_clause rfl rfl]
  exact ⟨fun h => h.2.2.2, fun h => ⟨RomajiTable.isTail_nil, rfl, selection.index_lt, h⟩⟩

@[simp] theorem wellFormed_completing {selection : Selection} :
    (completing selection).WellFormed table room ↔ selection.shortlist.IsCompletion := by
  rw [wellFormed_iff_clause rfl rfl]
  exact ⟨fun h => h.2.2.2, fun h => ⟨RomajiTable.isTail_nil, rfl, selection.index_lt, h⟩⟩

/-- A registration takes one place of the room; the segment inside it has the rest. -/
@[simp] theorem wellFormed_registering {key : ConversionKey} {origin : Origin} {text : Text}
    {inner : Segment} :
    (registering key origin text inner).WellFormed table (room + 1) ↔
      key.WellFormed origin ∧ inner.WellFormed table room := by
  have hchain : (Machine.ofSegment (registering key origin text inner)).chain =
      Machine.ofSegment (registering key origin text inner) :: (Machine.ofSegment inner).chain :=
    rfl
  have hdepth : (Machine.ofSegment (registering key origin text inner)).depth
      = (Machine.ofSegment inner).depth + 1 := rfl
  rw [wellFormed_iff, wellFormed_iff, hchain, hdepth, List.forall_mem_cons,
    Nat.add_le_add_iff_right, and_assoc]
  refine and_congr_left' ?_
  exact ⟨fun h => h.2.2, fun h => ⟨RomajiTable.isTail_nil, rfl, h⟩⟩

theorem not_wellFormed_registering_zero {key : ConversionKey} {origin : Origin} {text : Text}
    {inner : Segment} : ¬ (registering key origin text inner).WellFormed table 0 :=
  fun h => Nat.not_succ_le_zero _ h.depth_le

end Segment

/-! ### Readings -/

namespace Buffer

variable {table : RomajiTable} {b : Buffer}

theorem wellFormed_empty : empty.WellFormed table :=
  ⟨fun h => absurd rfl h, RomajiTable.isTail_nil⟩

theorem okuri_append_eq_none {s : Text} : (b.append s).okuri = none ↔ b.okuri = none := by
  unfold append
  split <;> simp_all

theorem kana_append_ne_nil {s : Text} (h : b.kana ≠ []) : (b.append s).kana ≠ [] := by
  unfold append
  split
  · exact h
  · exact List.append_ne_nil_of_left_ne_nil h s

/-- Appending leaves a reading well formed, whatever tail it then has. -/
theorem WellFormed.append (h : b.WellFormed table) (s : Text) {tail : Text}
    (htail : table.IsTail tail) :
    Buffer.WellFormed table { b.append s with tail := tail } := by
  refine ⟨fun hne => ?_, htail⟩
  have hb : b.okuri ≠ none := fun hn => hne (okuri_append_eq_none.mpr hn)
  exact kana_append_ne_nil (h.stem hb)

theorem WellFormed.flush (h : b.WellFormed table) : (b.flush table).WellFormed table :=
  h.append _ RomajiTable.isTail_nil

theorem WellFormed.type (h : b.WellFormed table) (c : Char) :
    (b.type table c).WellFormed table := by
  unfold Buffer.type
  split
  · rename_i hc
    simp only [Bool.and_eq_true, Bool.not_eq_true', List.isEmpty_eq_false_iff] at hc
    -- the capital opens okurigana, and the stem before them only grows
    refine ⟨fun _ => List.append_ne_nil_of_left_ne_nil hc.2 _, ?_⟩
    show table.IsTail (table.feedSplit b.tail c).2.tail
    rw [RomajiTable.tail_feedSplit]
    exact RomajiTable.isTail_feed h.tail c
  · exact h.append _ (RomajiTable.isTail_feed h.tail c)

theorem WellFormed.pop (h : b.WellFormed table) : b.pop.WellFormed table := by
  unfold Buffer.pop
  split
  · exact ⟨h.stem, RomajiTable.isTail_dropLast h.tail⟩
  · -- nothing is pending, so that the okurigana or the stem lose a character
    split
    · rename_i okuri ho
      have hstem : b.kana ≠ [] := h.stem (by rw [ho]; exact Option.some_ne_none okuri)
      exact ⟨fun _ => hstem, h.tail⟩
    · rename_i ho
      exact ⟨fun hne => absurd ho hne, h.tail⟩

/-- Open okurigana that go back to editing have their reading for a stem. -/
theorem wellFormed_ofKey {key : ConversionKey} (h : key.yomi ≠ []) :
    (ofKey key).WellFormed table := by
  unfold ofKey
  split
  · exact ⟨fun hne => absurd rfl hne, RomajiTable.isTail_nil⟩
  · exact ⟨fun _ => h, RomajiTable.isTail_nil⟩

/-- The key of a reading has no suffix. -/
theorem wellFormed_key (h : b.kana ≠ []) : b.key.WellFormed .kana :=
  ⟨h, Or.inr rfl, nofun⟩

/-- Okurigana that are complete are open. -/
theorem okuri_ne_none_of_okuriComplete (h : b.okuriComplete = true) : b.okuri ≠ none := by
  intro hn
  simp [okuriComplete, okuriText, hn] at h

end Buffer

/-! ### Selections -/

namespace Selection

variable {key : ConversionKey} {origin : Origin} {candidates : List Candidate}
  {selection : Selection}

theorem first?_eq_some (h : first? key origin candidates = some selection) :
    selection.key = key ∧ selection.origin = origin ∧ selection.candidates = candidates ∧
      selection.index = 0 := by
  cases candidates with
  | nil => exact nomatch h
  | cons c cs =>
    obtain rfl := Option.some.inj h
    exact ⟨rfl, rfl, rfl, rfl⟩

/-- The shortlist of what is found starts with the first candidate. -/
theorem shortlist_of_first? (h : first? key origin candidates = some selection) :
    selection.shortlist = ⟨key, origin, candidates, 0⟩ := by
  obtain ⟨rfl, rfl, rfl, hindex⟩ := first?_eq_some h
  rw [shortlist, hindex]

theorem current_mem (selection : Selection) : selection.current ∈ selection.candidates :=
  List.get_mem _ _

theorem isConversion_step (h : selection.shortlist.IsConversion) (steps : Int) :
    (selection.step steps).shortlist.IsConversion :=
  ⟨h.key, h.keys, h.surfaces⟩

theorem isCompletion_step (h : selection.shortlist.IsCompletion) (steps : Int) :
    (selection.step steps).shortlist.IsCompletion :=
  ⟨h.key, h.plain, h.stem⟩

/-- A completion that is converted has a reading, since it starts with one. -/
theorem wellFormed_current (h : selection.shortlist.IsCompletion) :
    selection.current.key.WellFormed selection.origin := by
  have hmem := selection.current_mem
  obtain ⟨rest, hrest⟩ := h.stem _ hmem
  refine ⟨?_, Or.inl (h.plain _ hmem).1, fun _ => (h.plain _ hmem).1⟩
  rw [← hrest]
  exact List.append_ne_nil_of_left_ne_nil h.key.yomi_ne_nil rest

end Selection

/-! ### What a key leads to -/

namespace Situation

variable {s : Situation}

/-- So many registrations may still be opened inside one another. -/
def room (s : Situation) : Nat :=
  s.settings.maxRegistrationDepth - s.depth

theorem room_of_canRegister (h : s.canRegister = true) : s.room = s.nested.room + 1 := by
  have hlt : s.depth < s.settings.maxRegistrationDepth := by simpa [canRegister] using h
  show s.settings.maxRegistrationDepth - s.depth
    = s.settings.maxRegistrationDepth - (s.depth + 1) + 1
  omega

theorem room_nested {room : Nat} (h : s.room = room + 1) : s.nested.room = room := by
  have hroom : s.settings.maxRegistrationDepth - s.depth = room + 1 := h
  show s.settings.maxRegistrationDepth - (s.depth + 1) = room
  omega

/-! #### Looking up -/

theorem wellFormed_registration {key : ConversionKey} {origin : Origin}
    (hkey : key.WellFormed origin)
    (hroom : s.canRegister = true) :
    (registration key origin).WellFormed s.table s.room := by
  rw [room_of_canRegister hroom]
  exact Segment.wellFormed_registering.mpr ⟨hkey, Segment.wellFormed_idle⟩

theorem wellFormed_editing {key : ConversionKey} (h : key.yomi ≠ []) (origin : Origin)
    {table : RomajiTable} {room : Nat} :
    (Segment.editing key origin).WellFormed table room := by
  cases origin with
  | kana => exact Segment.wellFormed_composing.mpr (Buffer.wellFormed_ofKey h)
  | abbreviation => exact Segment.wellFormed_abbreviation

theorem wellFormed_conversion {key : ConversionKey} {origin : Origin}
    (hkey : key.WellFormed origin) :
    (s.conversion key origin).WellFormed s.table s.room := by
  unfold conversion
  split
  · rename_i selection hs
    rw [Segment.wellFormed_selecting, Selection.shortlist_of_first? hs]
    exact ⟨hkey, fun candidate hm => Layered.key_of_mem_candidates hm,
      Layered.nodup_candidates _ _⟩
  · split
    · rename_i hroom
      exact wellFormed_registration hkey hroom
    · -- no more may be open, so the key is edited again
      exact wellFormed_editing hkey.yomi_ne_nil origin

theorem wellFormed_completion {stay : Segment} (hstay : stay.WellFormed s.table s.room)
    (yomi : Text) (origin : Origin) :
    (s.completion stay yomi origin).WellFormed s.table s.room := by
  unfold completion
  split
  · rename_i selection hs
    -- the current candidate shows that something was typed
    have hyomi : yomi ≠ [] := by
      obtain ⟨-, -, hc, -⟩ := Selection.first?_eq_some hs
      have hm := selection.current_mem
      rw [hc] at hm
      exact (Layered.mem_completions hm).1
    rw [Segment.wellFormed_completing, Selection.shortlist_of_first? hs]
    refine ⟨⟨hyomi, Or.inl rfl, fun _ => rfl⟩, fun candidate hm => ?_, fun candidate hm => ?_⟩
    · obtain ⟨-, hokuri, hsuffix, -⟩ := Layered.mem_completions hm
      exact ⟨hokuri, hsuffix⟩
    · exact (Layered.mem_completions hm).2.2.2
  · exact hstay

/-! #### Composing a reading -/

variable {b : Buffer}

theorem wellFormed_convert (b : Buffer) :
    (s.convert b).segment.WellFormed s.table s.room := by
  unfold convert
  dsimp only
  split
  · exact Segment.wellFormed_idle
  · rename_i hk
    have hne : (b.flush s.table).kana ≠ [] := by simpa using hk
    exact wellFormed_conversion (Buffer.wellFormed_key hne)

theorem wellFormed_completeReading (hb : b.WellFormed s.table) :
    (s.completeReading b).segment.WellFormed s.table s.room := by
  unfold completeReading
  split
  · exact Segment.wellFormed_composing.mpr hb
  · exact wellFormed_completion (Segment.wellFormed_composing.mpr hb.flush) _ _

theorem wellFormed_popReading (hb : b.WellFormed s.table) :
    (s.popReading b).segment.WellFormed s.table s.room := by
  unfold popReading
  dsimp only
  rw [segment_moves]
  split
  · exact Segment.wellFormed_idle
  · exact Segment.wellFormed_composing.mpr hb.pop

theorem wellFormed_composeCommand? (hb : b.WellFormed s.table) {event : KeyEvent}
    {outcome : Outcome} (h : s.composeCommand? b event = some outcome) :
    outcome.segment.WellFormed s.table s.room := by
  unfold composeCommand? at h
  split_ifs at h <;> obtain rfl := Option.some.inj h
  · exact wellFormed_convert b
  · exact Segment.wellFormed_idle
  · exact wellFormed_popReading hb
  · exact wellFormed_completeReading hb
  · exact Segment.wellFormed_idle
  · exact Segment.wellFormed_composing.mpr hb

/-- A keyword starts a conversion only behind a reading. -/
theorem wellFormed_autoStartKey? {key : ConversionKey} (h : s.autoStartKey? b = some key) :
    key.WellFormed .kana := by
  obtain ⟨keyword, -, hk⟩ := Option.bind_eq_some_iff.mp h
  dsimp only at hk
  split at hk
  · exact nomatch hk
  · rename_i hy
    obtain rfl := Option.some.inj hk
    simp only [Bool.or_eq_true, not_or, List.isEmpty_iff] at hy
    exact ⟨hy.1, Or.inl rfl, nofun⟩

theorem wellFormed_afterTyping {old : Buffer} (hb : b.WellFormed s.table) :
    (s.afterTyping old b).WellFormed s.table s.room := by
  unfold afterTyping
  split
  · rename_i ho
    -- complete okurigana are open, and open ones have a stem
    have hstem := hb.stem (Buffer.okuri_ne_none_of_okuriComplete ho)
    exact wellFormed_conversion (Buffer.wellFormed_key hstem)
  · split
    · split
      · rename_i hk
        exact wellFormed_conversion (wellFormed_autoStartKey? hk)
      · exact Segment.wellFormed_composing.mpr hb
    · exact Segment.wellFormed_composing.mpr hb

theorem wellFormed_typeReading (hb : b.WellFormed s.table) (c : Char) :
    (s.typeReading b c).segment.WellFormed s.table s.room :=
  wellFormed_afterTyping (hb.type c)

theorem wellFormed_openReading (event : KeyEvent) (c : Char) :
    (s.openReading event c).segment.WellFormed s.table s.room := by
  unfold openReading
  split
  · rename_i h
    exact wellFormed_composeCommand? Buffer.wellFormed_empty h
  · exact wellFormed_typeReading Buffer.wellFormed_empty c

/-! #### Typing directly -/

variable {tail : Text}

theorem wellFormed_latin (htail : s.table.IsTail tail) (event : KeyEvent) :
    (s.latin tail event).segment.WellFormed s.table s.room := by
  unfold latin
  split
  · exact Segment.wellFormed_direct.mpr htail
  · split
    · exact Segment.wellFormed_direct.mpr htail
    · exact Segment.wellFormed_direct.mpr htail

theorem wellFormed_directCommand? {event : KeyEvent} {outcome : Outcome}
    (h : s.directCommand? tail event = some outcome) :
    outcome.segment.WellFormed s.table s.room := by
  unfold directCommand? at h
  dsimp only at h
  split_ifs at h <;> obtain rfl := Option.some.inj h
  · exact Segment.wellFormed_idle
  · exact Segment.wellFormed_idle
  · exact Segment.wellFormed_idle
  · exact Segment.wellFormed_composing.mpr Buffer.wellFormed_empty
  · exact Segment.wellFormed_abbreviation

theorem wellFormed_typeDirect (htail : s.table.IsTail tail) (event : KeyEvent) (c : Char) :
    (s.typeDirect tail event c).segment.WellFormed s.table s.room := by
  unfold typeDirect
  split
  · exact wellFormed_openReading event c
  · exact Segment.wellFormed_direct.mpr (RomajiTable.isTail_feed htail c)

theorem wellFormed_romaji (htail : s.table.IsTail tail) (event : KeyEvent) :
    (s.romaji tail event).segment.WellFormed s.table s.room := by
  unfold romaji
  dsimp only
  split_ifs
  · exact Segment.wellFormed_idle
  · exact Segment.wellFormed_direct.mpr (RomajiTable.isTail_dropLast htail)
  · exact Segment.wellFormed_idle
  · exact Segment.wellFormed_idle
  · split
    · exact Segment.wellFormed_direct.mpr htail
    · split
      · rename_i h
        exact wellFormed_directCommand? h
      · exact wellFormed_typeDirect htail event _

theorem wellFormed_direct (htail : s.table.IsTail tail) (event : KeyEvent) :
    (s.direct tail event).segment.WellFormed s.table s.room := by
  unfold direct
  split
  · exact wellFormed_latin htail event
  · exact wellFormed_romaji htail event

theorem wellFormed_compose (hb : b.WellFormed s.table) (event : KeyEvent) :
    (s.compose b event).segment.WellFormed s.table s.room := by
  unfold compose
  split
  · rename_i h
    exact wellFormed_composeCommand? hb h
  · split
    · exact Segment.wellFormed_composing.mpr hb
    · split
      · exact wellFormed_direct (s := s) RomajiTable.isTail_nil event
      · exact wellFormed_typeReading hb _

theorem wellFormed_abbreviate (letters : Text) (event : KeyEvent) :
    (s.abbreviate letters event).segment.WellFormed s.table s.room := by
  unfold abbreviate
  dsimp only
  split_ifs with _ hl _ hl _ _ hl
  · exact Segment.wellFormed_abbreviation
  · exact wellFormed_conversion ⟨by simpa using hl, Or.inl rfl, fun _ => rfl⟩
  · exact Segment.wellFormed_abbreviation
  · exact wellFormed_completion Segment.wellFormed_abbreviation _ _
  · exact Segment.wellFormed_idle
  · exact Segment.wellFormed_idle
  · exact Segment.wellFormed_abbreviation
  · split
    · exact Segment.wellFormed_abbreviation
    · exact Segment.wellFormed_abbreviation

/-! #### Choosing -/

theorem wellFormed_backToReading {selection : Selection}
    (h : selection.key.WellFormed selection.origin) :
    (s.backToReading selection).segment.WellFormed s.table s.room :=
  wellFormed_editing h.yomi_ne_nil _

theorem wellFormed_commitAndType {stay : Segment} (hstay : stay.WellFormed s.table s.room)
    (selection : Selection) (event : KeyEvent) :
    (s.commitAndType stay selection event).segment.WellFormed s.table s.room := by
  unfold commitAndType
  split
  · exact hstay
  · -- the dictionaries have changed, but neither the table nor the room
    exact wellFormed_direct
      (s := { s with shelf := (s.commitCurrent selection).shelf }) RomajiTable.isTail_nil event

theorem wellFormed_select {selection : Selection} (h : selection.shortlist.IsConversion)
    (event : KeyEvent) : (s.select selection event).segment.WellFormed s.table s.room := by
  have hstay : (Segment.selecting selection).WellFormed s.table s.room :=
    Segment.wellFormed_selecting.mpr h
  unfold select
  dsimp only
  split_ifs with _ _ _ _ hroom
  · exact Segment.wellFormed_selecting.mpr (Selection.isConversion_step h 1)
  · exact Segment.wellFormed_selecting.mpr (Selection.isConversion_step h (-1))
  · exact Segment.wellFormed_idle
  · exact wellFormed_registration h.key hroom
  · exact hstay
  · exact wellFormed_backToReading h.key
  · exact Segment.wellFormed_idle
  · exact wellFormed_commitAndType hstay selection event

theorem wellFormed_complete {selection : Selection} (h : selection.shortlist.IsCompletion)
    (event : KeyEvent) : (s.complete selection event).segment.WellFormed s.table s.room := by
  unfold complete
  dsimp only
  split_ifs
  · exact Segment.wellFormed_completing.mpr (Selection.isCompletion_step h 1)
  · exact Segment.wellFormed_completing.mpr (Selection.isCompletion_step h (-1))
  · exact wellFormed_conversion (Selection.wellFormed_current h)
  · exact wellFormed_backToReading h.key
  · exact Segment.wellFormed_idle
  · exact Segment.wellFormed_idle
  · exact wellFormed_commitAndType (Segment.wellFormed_completing.mpr h) selection event

/-! #### Any key -/

theorem wellFormed_confirm {key : ConversionKey} {origin : Origin} (hkey : key.WellFormed origin)
    (word : Text) : (s.confirm key origin word).segment.WellFormed s.table s.room := by
  unfold confirm
  split
  · exact wellFormed_editing hkey.yomi_ne_nil origin
  · exact Segment.wellFormed_idle

theorem wellFormed_registrationCommand? {key : ConversionKey} {origin : Origin} {text : Text}
    {event : KeyEvent} {outcome : Outcome}
    (h : (Segment.registering key origin text (.direct tail)).WellFormed s.table s.room)
    (ho : s.registrationCommand? key origin text tail event = some outcome) :
    outcome.segment.WellFormed s.table s.room := by
  cases hroom : s.room with
  | zero =>
    rw [hroom] at h
    exact absurd h Segment.not_wellFormed_registering_zero
  | succ room =>
    rw [hroom] at h
    obtain ⟨hkey, hinner⟩ := Segment.wellFormed_registering.mp h
    rw [← hroom]
    unfold registrationCommand? at ho
    split_ifs at ho <;> obtain rfl := Option.some.inj ho
    · exact wellFormed_confirm hkey _
    · rw [segment_moves, hroom]
      exact Segment.wellFormed_registering.mpr ⟨hkey, hinner⟩

/-- **A key leads from a well-formed segment to a well-formed segment.** -/
theorem wellFormed_handle (s : Situation) {segment : Segment}
    (h : segment.WellFormed s.table s.room) (event : KeyEvent) :
    (s.handle segment event).segment.WellFormed s.table s.room := by
  refine handle_induction (P := fun s segment outcome => segment.WellFormed s.table s.room →
    outcome.segment.WellFormed s.table s.room) event ?cancelled ?direct ?composing ?abbreviation
    ?selecting ?completing ?command ?inside s segment h
  case cancelled =>
    intro s segment _ _ _
    exact Segment.wellFormed_idle
  case direct =>
    intro s tail h
    exact wellFormed_direct (Segment.wellFormed_direct.mp h) event
  case composing =>
    intro s b _ h
    exact wellFormed_compose (Segment.wellFormed_composing.mp h) event
  case abbreviation =>
    intro s letters _ _
    exact wellFormed_abbreviate letters event
  case selecting =>
    intro s selection _ h
    exact wellFormed_select (Segment.wellFormed_selecting.mp h) event
  case completing =>
    intro s selection _ h
    exact wellFormed_complete (Segment.wellFormed_completing.mp h) event
  case command =>
    intro s key origin text tail outcome _ hcommand h
    exact wellFormed_registrationCommand? h hcommand
  case inside =>
    intro s key origin text inner _ ih h
    cases hroom : s.room with
    | zero =>
      rw [hroom] at h
      exact absurd h Segment.not_wellFormed_registering_zero
    | succ room =>
      rw [hroom] at h
      obtain ⟨hkey, hinner⟩ := Segment.wellFormed_registering.mp h
      refine Segment.wellFormed_registering.mpr ⟨hkey, ?_⟩
      -- the segment inside has one registration less to open
      have hnested := room_nested hroom
      rw [← hnested] at hinner ⊢
      exact ih hinner

end Situation

/-! ### Every session -/

namespace Session

/-- What a session is in the middle of is well formed, and no more registrations are open
than the settings allow. -/
def WellFormed (session : Session) : Prop :=
  session.context.segment.WellFormed session.context.table
    session.context.settings.maxRegistrationDepth

theorem wellFormed_start (settings : Settings) (table : RomajiTable) (layers : Layers)
    (shelf : Shelf) : (start settings table layers shelf).WellFormed :=
  Segment.wellFormed_idle

theorem wellFormed_serve {session : Session} (h : session.WellFormed) (request : Request) :
    (session.serve request).WellFormed := by
  cases request with
  | press event =>
    by_cases hr : event.isRelease = true
    · rw [serve, press_of_release session hr]
      exact h
    · rw [serve, press_of_not_release session (by simpa using hr)]
      exact Situation.wellFormed_handle session.situation h event
  | reset => exact Segment.wellFormed_idle
  | _ => exact h

theorem WellFormed.run {session : Session} (h : session.WellFormed) (requests : List Request) :
    (session.run requests).WellFormed :=
  run_invariant (P := WellFormed) (fun _ request hs => wellFormed_serve hs request) h requests

end Session

end KanaKanji

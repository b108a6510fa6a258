/-
How long a reading can become.

The limit of a reading is looked at before a character is typed into it.  What one key lets out
is bounded by the rules of the table, so that a reading that is typed stays within the limit and
twice the bound of the rules, whichever way it goes to a key of the dictionaries and back.

* `Situation.within_handle`: a key keeps a segment within the bound, and all that is kept in it to
  be edited again;
* `Session.composing_bounded`: so does every run, as long as no completion is converted;
* `Session.composing_bounded_overrun`: the reading of a completion is as long as the dictionaries
  have it, and deleting among its candidates edits it, whatever its length.

Design notes: what is pending will leave the tail once more, when it is flushed.  A reading with a
tail therefore has to be short of the bound by what one rule has.
-/
import KanaKanji.Proofs.Romaji.Lengths
import KanaKanji.Proofs.Session.Lookup
import KanaKanji.Romaji.Builtin

namespace KanaKanji

/-! ### Readings -/

namespace Buffer

/-- The reading is no longer than `limit`, also when what is pending has been resolved to as much
as `size` characters. -/
structure Within (table : RomajiTable) (size limit : Nat) (b : Buffer) : Prop where
  tail : table.IsTail b.tail
  text : b.text.length ≤ limit
  pending : b.tail ≠ [] → b.text.length + size ≤ limit

variable {table : RomajiTable} {size limit : Nat} {b : Buffer}

theorem text_append (b : Buffer) (s : Text) : (b.append s).text = b.text ++ s := by
  unfold append text okuriText
  cases b.okuri with
  | none => simp
  | some okuri => simp

/-- What a typed character lets out of the tail comes behind the text, wherever the okurigana
begin. -/
theorem text_type (htail : table.IsTail b.tail) (c : Char) :
    (b.type table c).text = b.text ++ (table.feed b.tail c).emitted := by
  unfold type
  split
  · rename_i hc
    simp only [Bool.and_eq_true, Option.isNone_iff_eq_none] at hc
    have htext : b.text = b.kana := by simp [text, okuriText, hc.1.2]
    rw [htext, ← RomajiTable.emitted_feedSplit htail c, ← List.append_assoc]
    rfl
  · exact text_append b _

theorem tail_type (b : Buffer) (c : Char) :
    (b.type table c).tail = (table.feed b.tail c).tail := by
  unfold type
  split
  · exact RomajiTable.tail_feedSplit b.tail c
  · rfl

theorem within_empty (size limit : Nat) : empty.Within table size limit :=
  ⟨RomajiTable.isTail_nil, Nat.zero_le limit, fun h => absurd rfl h⟩

theorem within_of_tail_eq_nil (htail : b.tail = []) (htext : b.text.length ≤ limit) :
    b.Within table size limit :=
  ⟨by rw [htail]; exact RomajiTable.isTail_nil, htext, fun h => absurd htail h⟩

theorem within_ofKey {key : ConversionKey} (h : key.text.length ≤ limit) :
    (ofKey key).Within table size limit := by
  refine within_of_tail_eq_nil ?_ (by rw [text_ofKey]; exact h)
  unfold ofKey
  split
  · rfl
  · rfl

section

variable (hsize : table.RulesWithin size)
include hsize

/-- With the tail, too, the reading is within the bound. -/
theorem Within.length_le (h : b.Within table size limit) : b.length ≤ limit := by
  have htext := h.text
  have hpending := h.pending
  have hlength : b.length = b.text.length + b.tail.length := by
    rw [Buffer.text, List.length_append]
    rfl
  by_cases hnil : b.tail = []
  · rw [hlength, hnil]
    exact htext
  · have hroom := hpending hnil
    have htail := RomajiTable.length_lt_of_isTail hsize h.tail hnil
    omega

theorem Within.flush (h : b.Within table size limit) :
    (b.flush table).Within table size limit := by
  refine within_of_tail_eq_nil rfl ?_
  show (b.append (table.flush b.tail)).text.length ≤ limit
  rw [text_append, List.length_append]
  by_cases hnil : b.tail = []
  · rw [hnil]
    exact h.text
  · have hroom := h.pending hnil
    have hflush := RomajiTable.length_flush_le hsize h.tail hnil
    omega

/-- A character goes to a reading that has room for what it lets out, and for the tail that it may
leave. -/
theorem within_type (htail : table.IsTail b.tail) (c : Char)
    (hroom : b.text.length + (2 * size + 1) ≤ limit) :
    (b.type table c).Within table size limit := by
  have hemitted := RomajiTable.length_emitted_feed_le hsize htail c
  have htext : (b.type table c).text.length
      = b.text.length + (table.feed b.tail c).emitted.length := by
    rw [text_type htail, List.length_append]
  refine ⟨?_, ?_, fun hwaits => ?_⟩
  · rw [tail_type]
    exact RomajiTable.isTail_feed htail c
  · omega
  · rw [tail_type] at hwaits
    have hfew := RomajiTable.length_emitted_le_of_waiting hsize htail hwaits
    omega

end

/-- Taking the last character away makes the text no longer. -/
theorem length_text_pop_le (b : Buffer) : b.pop.text.length ≤ b.text.length := by
  obtain ⟨kana, okuri, tail⟩ := b
  unfold pop
  split
  · exact Nat.le_refl _
  · cases okuri with
    | none => simp [text, okuriText]
    | some okuri =>
      simp only [text, okuriText, Option.getD_some, List.length_append]
      split
      · simp
      · simp

theorem tail_pop (b : Buffer) : b.pop.tail = b.tail.dropLast := by
  unfold pop
  split
  · rfl
  · rename_i hnil
    have htail : b.tail = [] := by simpa using hnil
    rw [htail]
    split
    · rfl
    · rfl

theorem Within.pop (h : b.Within table size limit) : b.pop.Within table size limit := by
  have htext := h.text
  have hpop := length_text_pop_le b
  refine ⟨?_, by omega, fun hwaits => ?_⟩
  · rw [tail_pop]
    exact RomajiTable.isTail_dropLast h.tail
  · rw [tail_pop] at hwaits
    have hroom := h.pending fun hnil => hwaits (by rw [hnil]; rfl)
    omega

end Buffer

/-! ### Segments -/

namespace Segment

/-- The reading of the segment is within the bound, and so are the keys that are edited as readings
when the segment goes back to them. -/
def Within (table : RomajiTable) (size limit : Nat) : Segment → Prop
  | composing b => b.Within table size limit
  | selecting selection => selection.origin = .kana → selection.key.text.length ≤ limit
  | completing selection => selection.origin = .kana → selection.key.text.length ≤ limit
  | registering key origin _ inner =>
    (origin = .kana → key.text.length ≤ limit) ∧ inner.Within table size limit
  | _ => True

variable {table : RomajiTable} {size limit : Nat}

theorem within_idle : idle.Within table size limit := trivial

theorem within_editing {key : ConversionKey} {origin : Origin}
    (h : origin = .kana → key.text.length ≤ limit) :
    (editing key origin).Within table size limit := by
  cases origin with
  | kana => exact Buffer.within_ofKey (h rfl)
  | abbreviation => trivial

theorem Within.innermost {segment : Segment} (h : segment.Within table size limit) :
    segment.innermost.Within table size limit := by
  induction segment with
  | registering key origin text inner ih => exact ih h.2
  | _ => exact h

end Segment

/-! ### Keys -/

namespace Situation

variable {s : Situation} {size limit : Nat} {event : KeyEvent}

/-- A reading that is typed here has the room that the bound asks for. -/
structure Allows (s : Situation) (size limit : Nat) : Prop where
  rules : s.table.RulesWithin size
  positive : 0 < s.settings.maxCompositionLength
  limit : s.settings.maxCompositionLength + 2 * size ≤ limit

/-- The key converts the completion with this reading. -/
def Converts (s : Situation) (event : KeyEvent) (segment : Segment) (reading : Text) : Prop :=
  s.settings.keymap.Gives [.cancel, .complete, .previousCompletion] .convert event ∧
    ∃ selection, segment.innermost = .completing selection ∧ selection.origin = .kana ∧
      reading = selection.current.key.text

theorem within_conversion {key : ConversionKey} {origin : Origin}
    (h : origin = .kana → key.text.length ≤ limit) :
    (s.conversion key origin).Within s.table size limit := by
  unfold conversion
  split
  · rename_i selection hfirst
    obtain ⟨rfl, rfl, -⟩ := Selection.first?_eq_some hfirst
    exact h
  · split
    · exact ⟨h, Segment.within_idle⟩
    · exact Segment.within_editing h

theorem within_completion {stay : Segment} (hstay : stay.Within s.table size limit) {yomi : Text}
    {origin : Origin} (h : origin = .kana → yomi.length ≤ limit) :
    (s.completion stay yomi origin).Within s.table size limit := by
  unfold completion
  split
  · rename_i selection hfirst
    obtain ⟨hkey, rfl, -⟩ := Selection.first?_eq_some hfirst
    intro horigin
    rw [hkey]
    simpa [ConversionKey.text] using h horigin
  · exact hstay

theorem within_abbreviate (letters : Text) (event : KeyEvent) :
    (s.abbreviate letters event).segment.Within s.table size limit := by
  unfold abbreviate
  dsimp only
  split_ifs
  · trivial
  · exact within_conversion nofun
  · trivial
  · have hstay : (Segment.abbreviation letters).Within s.table size limit := trivial
    exact within_completion hstay nofun
  · trivial
  · trivial
  · trivial
  · split <;> trivial

theorem within_registrationCommand? {key : ConversionKey} {origin : Origin} {text tail : Text}
    {outcome : Outcome} (h : origin = .kana → key.text.length ≤ limit)
    (ho : s.registrationCommand? key origin text tail event = some outcome) :
    outcome.segment.Within s.table size limit := by
  unfold registrationCommand? at ho
  split_ifs at ho <;> obtain rfl := Option.some.inj ho
  · unfold confirm
    split
    · exact Segment.within_editing h
    · exact Segment.within_idle
  · exact ⟨h, trivial⟩

/-! #### Composing a reading -/

section

variable (hs : s.Allows size limit) {b : Buffer}
include hs

theorem within_composeCommand? (hb : b.Within s.table size limit) {outcome : Outcome}
    (h : s.composeCommand? b event = some outcome) :
    outcome.segment.Within s.table size limit := by
  have hflush : (b.flush s.table).text.length ≤ limit := (hb.flush hs.rules).text
  unfold composeCommand? at h
  split_ifs at h <;> obtain rfl := Option.some.inj h
  · unfold convert
    dsimp only
    split
    · exact Segment.within_idle
    · refine within_conversion fun _ => ?_
      -- the key spells the reading
      show ((b.flush s.table).text ++ []).length ≤ limit
      rw [List.append_nil]
      exact hflush
  · exact Segment.within_idle
  · unfold popReading
    dsimp only
    rw [segment_moves]
    split
    · exact Segment.within_idle
    · exact hb.pop
  · unfold completeReading
    split
    · exact hb
    · have hstay : (Segment.composing (b.flush s.table)).Within s.table size limit :=
        hb.flush hs.rules
      refine within_completion hstay fun _ => ?_
      have htext : (b.flush s.table).kana.length ≤ (b.flush s.table).text.length := by
        simp [Buffer.text]
      omega
  · exact Segment.within_idle
  · exact hb

theorem within_typeReading (htail : s.table.IsTail b.tail) (c : Char)
    (hroom : b.text.length < s.settings.maxCompositionLength) :
    (s.typeReading b c).segment.Within s.table size limit := by
  have hlimit := hs.limit
  have htyped : (b.type s.table c).Within s.table size limit :=
    Buffer.within_type hs.rules htail c (by omega)
  show (s.afterTyping b (b.type s.table c)).Within s.table size limit
  unfold afterTyping
  split
  · refine within_conversion fun _ => ?_
    show ((b.type s.table c).text ++ []).length ≤ limit
    rw [List.append_nil]
    exact htyped.text
  · split
    · split
      · rename_i key hkey
        refine within_conversion fun _ => ?_
        -- stem and keyword are what is on the stem
        obtain ⟨hokuri, hkana⟩ := kana_of_autoStartKey? hkey
        have hstem : (b.type s.table c).kana.length ≤ (b.type s.table c).text.length := by
          simp [Buffer.text]
        have htext := htyped.text
        rw [ConversionKey.text, hokuri, List.append_nil, hkana]
        omega
      · exact htyped
    · exact htyped

theorem within_openReading (event : KeyEvent) (c : Char) :
    (s.openReading event c).segment.Within s.table size limit := by
  unfold openReading
  split
  · rename_i h
    exact within_composeCommand? hs (Buffer.within_empty size limit) h
  · exact within_typeReading hs RomajiTable.isTail_nil c hs.positive

/-! #### Other keys -/

theorem within_direct (tail : Text) (event : KeyEvent) :
    (s.direct tail event).segment.Within s.table size limit := by
  unfold direct latin romaji
  dsimp only
  split_ifs
  · trivial
  · split <;> trivial
  · trivial
  · trivial
  · trivial
  · trivial
  · split
    · trivial
    · split
      · rename_i h
        unfold directCommand? at h
        dsimp only at h
        split_ifs at h <;> obtain rfl := Option.some.inj h
        · trivial
        · trivial
        · trivial
        · exact Buffer.within_empty size limit
        · trivial
      · unfold typeDirect
        split
        · exact within_openReading hs event _
        · trivial

theorem within_compose (hb : b.Within s.table size limit) (event : KeyEvent) :
    (s.compose b event).segment.Within s.table size limit := by
  unfold compose
  split
  · rename_i h
    exact within_composeCommand? hs hb h
  · split
    · exact hb
    · split
      · exact within_direct hs [] event
      · rename_i hroom
        refine within_typeReading hs hb.tail _ ?_
        simpa [isFull] using hroom

theorem within_commitAndType {stay : Segment} (hstay : stay.Within s.table size limit)
    (selection : Selection) (event : KeyEvent) :
    (s.commitAndType stay selection event).segment.Within s.table size limit := by
  unfold commitAndType
  split
  · exact hstay
  · -- the settings and the table are the same after the commit
    exact within_direct (s := { s with shelf := (s.commitCurrent selection).shelf })
      ⟨hs.rules, hs.positive, hs.limit⟩ [] event

theorem within_select {selection : Selection}
    (h : (Segment.selecting selection).Within s.table size limit) (event : KeyEvent) :
    (s.select selection event).segment.Within s.table size limit := by
  unfold select
  dsimp only
  split_ifs
  · exact h
  · exact h
  · exact Segment.within_idle
  · exact ⟨h, Segment.within_idle⟩
  · exact h
  · exact Segment.within_editing h
  · exact Segment.within_idle
  · exact within_commitAndType hs h selection event

/-- Only the conversion of a completion brings in a reading that has not been typed. -/
theorem within_complete {selection : Selection}
    (h : (Segment.completing selection).Within s.table size limit)
    (hpress : event.isRelease = false) (hcancel : s.binds .cancel event = false)
    (hconverts : ∀ reading, s.Converts event (.completing selection) reading →
      reading.length ≤ limit) :
    (s.complete selection event).segment.Within s.table size limit := by
  unfold complete
  dsimp only
  split_ifs with hcomplete hprevious hconvert
  · exact h
  · exact h
  · refine within_conversion fun horigin => ?_
    refine hconverts _ ⟨⟨hpress, hconvert, ?_⟩, selection, rfl, horigin, rfl⟩
    intro other hother
    simp only [List.mem_cons, List.not_mem_nil, or_false] at hother
    rcases hother with rfl | rfl | rfl
    · exact hcancel
    · exact Bool.eq_false_iff.mpr hcomplete
    · exact Bool.eq_false_iff.mpr hprevious
  · exact Segment.within_editing h
  · exact Segment.within_idle
  · exact Segment.within_idle
  · exact within_commitAndType hs h selection event

end

/-- **A key keeps a segment within the bound**, unless it converts a completion whose reading is
longer. -/
theorem within_handle {s : Situation} (hs : s.Allows size limit) {segment : Segment}
    (h : segment.Within s.table size limit) (hpress : event.isRelease = false)
    (hconverts : ∀ reading, s.Converts event segment reading → reading.length ≤ limit) :
    (s.handle segment event).segment.Within s.table size limit := by
  refine handle_induction (P := fun s segment outcome => s.Allows size limit →
    segment.Within s.table size limit →
    (∀ reading, s.Converts event segment reading → reading.length ≤ limit) →
    outcome.segment.Within s.table size limit) event ?cancelled ?direct ?composing ?abbreviation
    ?selecting ?completing ?command ?inside s segment hs h hconverts
  case cancelled =>
    intro s segment _ _ _ _ _
    exact Segment.within_idle
  case direct =>
    intro s tail hs _ _
    exact within_direct hs tail event
  case composing =>
    intro s b _ hs h _
    exact within_compose hs h event
  case abbreviation =>
    intro s letters _ _ _ _
    exact within_abbreviate letters event
  case selecting =>
    intro s selection _ hs h _
    exact within_select hs h event
  case completing =>
    intro s selection hcancel hs h hconverts
    exact within_complete hs h hpress hcancel hconverts
  case command =>
    intro s key origin text tail outcome _ hcommand _ h _
    exact within_registrationCommand? h.1 hcommand
  case inside =>
    intro s key origin text inner _ ih hs h hconverts
    -- the settings and the table are the same inside a registration
    refine ⟨h.1, ih ⟨hs.rules, hs.positive, hs.limit⟩ h.2 ?_⟩
    rintro reading ⟨hgives, hshown⟩
    exact hconverts reading ⟨hgives, hshown⟩

end Situation

/-! ### Runs -/

namespace Session

variable {size limit : Nat}

/-- The request presses a key that converts the completion with this reading. -/
def Converts (session : Session) (request : Request) (reading : Text) : Prop :=
  ∃ event, request = .press event ∧
    session.situation.Converts event session.context.segment reading

/-- A request keeps the segment within the bound. -/
theorem within_serve {session : Session} {request : Request}
    (hs : session.situation.Allows size limit)
    (h : session.context.segment.Within session.context.table size limit)
    (hconverts : ∀ reading, session.Converts request reading → reading.length ≤ limit) :
    (session.serve request).context.segment.Within session.context.table size limit := by
  cases request with
  | press event =>
    by_cases hr : event.isRelease = true
    · rw [serve, press_of_release session hr]
      exact h
    · have hpress : event.isRelease = false := by simpa using hr
      rw [serve, press_of_not_release session hpress]
      exact Situation.within_handle hs h hpress fun reading hc => hconverts reading ⟨event, rfl, hc⟩
  | reset => exact Segment.within_idle
  | _ => exact h

/-- A run keeps the segment within the bound, if no reading of a completion that it converts is
longer.  The induction is on the requests, from the first on. -/
theorem within_run {session : Session} (hs : session.situation.Allows size limit)
    (h : session.context.segment.Within session.context.table size limit)
    (requests : List Request)
    (hconverts : ∀ before request after reading, requests = before ++ request :: after →
      (session.run before).Converts request reading → reading.length ≤ limit) :
    (session.run requests).context.segment.Within session.context.table size limit := by
  induction requests generalizing session with
  | nil => exact h
  | cons request requests ih =>
    have hserve := within_serve hs h fun reading hc => hconverts [] request requests reading rfl hc
    obtain ⟨hsettings, htable, -⟩ := serve_frame session request
    rw [run_cons]
    rw [← htable] at hserve ⊢
    refine ih ⟨?_, ?_, ?_⟩ hserve ?_
    · show (session.serve request).context.table.RulesWithin size
      rw [htable]
      exact hs.rules
    · show 0 < (session.serve request).context.settings.maxCompositionLength
      rw [hsettings]
      exact hs.positive
    · show (session.serve request).context.settings.maxCompositionLength + 2 * size ≤ limit
      rw [hsettings]
      exact hs.limit
    · rintro before other after reading rfl hc
      exact hconverts (request :: before) other after reading rfl hc

/-- **A reading that is composed is no longer** than the limit of the settings and twice what the
rules of the table have, or a completion has been converted whose reading is as long at least. -/
theorem composing_bounded {table : RomajiTable} {size : Nat} (hsize : table.RulesWithin size)
    {settings : Settings} (hpositive : 0 < settings.maxCompositionLength) (layers : Layers)
    (shelf : Shelf) (requests : List Request) {b : Buffer}
    (hb : ((start settings table layers shelf).run requests).context.segment.innermost
      = .composing b) :
    b.length ≤ settings.maxCompositionLength + 2 * size ∨
      ∃ before request after reading, requests = before ++ request :: after ∧
        ((start settings table layers shelf).run before).Converts request reading ∧
        b.length ≤ reading.length := by
  by_cases hle : b.length ≤ settings.maxCompositionLength + 2 * size
  · exact Or.inl hle
  · right
    -- else the run would keep the reading shorter than it is
    refine Classical.byContradiction fun hnone => ?_
    have hallows : (start settings table layers shelf).situation.Allows size (b.length - 1) := by
      refine ⟨hsize, hpositive, ?_⟩
      show settings.maxCompositionLength + 2 * size ≤ b.length - 1
      omega
    have hshort : ∀ before request after reading, requests = before ++ request :: after →
        ((start settings table layers shelf).run before).Converts request reading →
        reading.length ≤ b.length - 1 := by
      intro before request after reading hsplit hc
      refine Classical.byContradiction fun hlong => ?_
      exact hnone ⟨before, request, after, reading, hsplit, hc, by omega⟩
    have hreading := (within_run hallows Segment.within_idle requests hshort).innermost
    rw [hb] at hreading
    have hlength := Buffer.Within.length_le hsize hreading
    omega

/-- A table with a single rule, of one character for あ. -/
def onlyA : RomajiTable :=
  ⟨Index.ofList [("a".toList, "あ".toList)], firstFault_eq_none_iff.mp (by decide +kernel)⟩

/-- A reading may have one character here, and there is a word whose reading has five. -/
def shortOfRoom : Session :=
  start { Settings.builtin with maxCompositionLength := 1 } onlyA [0]
    [Dictionary.fixed Dictionary.systemName
      [("あああああ".toList, [{ surface := "亜".toList }])]]

/-- あ is typed and completed to the word, whose reading is converted and edited. -/
def overrun : List Request :=
  [.press (.ofChar 'A'), .press ⟨.named .tab, .none⟩, .press (.ofChar ' '),
    .press ⟨.named .backSpace, .none⟩]

/-- The reading that is composed then is longer than the limit and the rules account for. -/
theorem composing_bounded_overrun :
    let context := (shortOfRoom.run overrun).context
    context.table.RulesWithin 1 ∧ 0 < context.settings.maxCompositionLength ∧
      context.segment.innermost = .composing { kana := "あああああ".toList } ∧
      ¬ context.segment.buffer.length ≤ context.settings.maxCompositionLength + 2 * 1 := by
  decide +kernel

/-- It has been completed and converted. -/
theorem composing_bounded_converted :
    onlyA.RulesWithin 1 ∧ 0 < shortOfRoom.context.settings.maxCompositionLength ∧
    ∃ before request after reading, overrun = before ++ request :: after ∧
      (shortOfRoom.run before).Converts request reading ∧ 5 ≤ reading.length := by
  have hrules : onlyA.RulesWithin 1 := by decide +kernel
  have hpositive : 0 < shortOfRoom.context.settings.maxCompositionLength := Nat.zero_lt_one
  have hreading : (shortOfRoom.run overrun).context.segment.innermost
      = .composing { kana := "あああああ".toList } := by
    decide +kernel
  refine ⟨hrules, hpositive, ?_⟩
  rcases composing_bounded hrules hpositive _ _ _ hreading with hshort | hconverted
  · exact absurd hshort (by decide +kernel)
  · exact hconverted

end Session

end KanaKanji

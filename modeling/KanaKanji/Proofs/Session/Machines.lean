/-
Machines do what segments do.

Handling a key is defined twice: by the turns of machines, whose functions clear buffers and change
states one after the other and call each other, and as a function on segments, which has no buffers
to clear.  From the machine of a segment the turns end in the machine of the segment that the
function gives, and all else is the same.

* `Machine.convert_eq`, `Machine.composeCommand?_eq`, `Machine.abbreviate_eq`, ...: what functions
  do that call no other;
* `Leads.direct`, `Leads.compose`, `Leads.select`, ...: where the turns of each function lead;
* `Machine.leads_any`: where any key leads.

Design notes: an abbreviation keeps its letters in the stem of the buffer.  A key that goes back to
editing puts its okurigana beside the stem, so that the two fit only as long as abbreviations have
none; this is part of what is well formed.
-/
import KanaKanji.Proofs.Session.Calls
import KanaKanji.Proofs.Session.WellFormed

namespace KanaKanji

/-- What handling gives for a segment, as it is for the machine of the segment. -/
def Effect.ofOutcome (outcome : Outcome) : Effect :=
  ⟨outcome.consumed, .ofSegment outcome.segment, outcome.committed, outcome.mode, outcome.shelf⟩

/-- The turns of a function end in the effect of this outcome. -/
def Leads (event : KeyEvent) (s : Situation) (handler : Handler) (m : Machine)
    (outcome : Outcome) : Prop :=
  ∃ entered, Ends event s handler m (some (.ofOutcome outcome)) entered

/-- A buffer that holds nothing is the empty one. -/
theorem Buffer.eq_empty {b : Buffer} (h : b.isEmpty = true) : b = .empty := by
  obtain ⟨kana, okuri, tail⟩ := b
  simp only [Buffer.isEmpty, Bool.and_eq_true, List.isEmpty_iff, Option.isNone_iff_eq_none] at h
  obtain ⟨⟨rfl, rfl⟩, rfl⟩ := h
  rfl

/-! ### Functions that call no other -/

namespace Machine

variable {s : Situation} {event : KeyEvent} {key : ConversionKey} {origin : Origin}

/-! #### Looking up -/

theorem edit_eq (hplain : origin = .abbreviation → key.okuri = []) (m : Machine) :
    m.edit key origin = ofSegment (.editing key origin) := by
  cases origin with
  | kana => rfl
  | abbreviation =>
    have hokuri : key.okuri = [] := hplain rfl
    simp [edit, enter, Origin.editing, Segment.editing, ofSegment, Buffer.ofKey,
      ConversionKey.text, hokuri]

theorem convert_eq (hplain : origin = .abbreviation → key.okuri = []) (m : Machine) :
    m.convert s key origin = ofSegment (s.conversion key origin) := by
  unfold convert Situation.conversion
  cases s.dictionaries.candidates key with
  | cons c cs => rfl
  | nil =>
    dsimp only [Selection.first?]
    split
    · rfl
    · exact edit_eq hplain _

theorem convert_kana (m : Machine) :
    m.convert s key .kana = ofSegment (s.conversion key .kana) :=
  convert_eq Origin.noConfusion m

theorem complete_eq (stay : Segment) (yomi : Text) (origin : Origin) :
    (ofSegment stay).complete s yomi origin = ofSegment (s.completion stay yomi origin) := by
  unfold complete Situation.completion
  cases s.dictionaries.completions yomi s.settings.maxCompletions with
  | cons c cs => rfl
  | nil => rfl

/-! #### Composing a reading -/

theorem ofOutcome_moves (segment : Segment) :
    Effect.ofOutcome (s.moves segment) = (ofSegment segment).moves s := rfl

theorem convertReading_eq (b : Buffer) :
    ((ofSegment (.composing b)).convertReading s).moves s = .ofOutcome (s.convert b) := by
  unfold convertReading Situation.convert
  rw [apply_ite (moves · s), apply_ite Effect.ofOutcome]
  refine ite_congr rfl (fun _ => rfl) fun _ => ?_
  rw [convert_kana]
  rfl

theorem completeReading_eq (b : Buffer) :
    ((ofSegment (.composing b)).completeReading s).moves s
      = .ofOutcome (s.completeReading b) := by
  unfold completeReading Situation.completeReading
  rw [apply_ite (moves · s), apply_ite Effect.ofOutcome]
  refine ite_congr rfl (fun _ => rfl) fun _ => ?_
  exact congrArg (moves · s) (complete_eq (.composing (b.flush s.table)) _ _)

theorem commitReading_eq (form : Text → Text) (b : Buffer) :
    (ofSegment (.composing b)).commitReading s form = .ofOutcome (s.commitKana form b) := rfl

theorem pop_eq (b : Buffer) :
    ((ofSegment (.composing b)).pop).moves s = .ofOutcome (s.popReading b) := by
  unfold pop Situation.popReading
  dsimp only
  rw [ofOutcome_moves, apply_ite ofSegment]
  refine congrArg (moves · s) (ite_congr rfl (fun hempty => ?_) fun _ => rfl)
  exact congrArg (Machine.mk · .direct) (Buffer.eq_empty hempty)

theorem composeCommand?_eq (b : Buffer) :
    (ofSegment (.composing b)).composeCommand? s event
      = (s.composeCommand? b event).map .ofOutcome := by
  unfold composeCommand? Situation.composeCommand?
  rw [convertReading_eq, completeReading_eq, commitReading_eq, commitReading_eq, pop_eq]
  split_ifs <;> rfl

theorem typeReading_eq (b : Buffer) (c : Char) :
    (ofSegment (.composing b)).typeReading s c
      = ofSegment (s.afterTyping b (b.type s.table c)) := by
  unfold typeReading Situation.afterTyping
  rw [apply_ite ofSegment, apply_ite ofSegment]
  refine ite_congr rfl (fun _ => convert_kana _) fun _ => ite_congr rfl (fun _ => ?_) fun _ => rfl
  dsimp only [ofSegment]
  cases s.autoStartKey? (b.type s.table c) with
  | some key => exact convert_kana _
  | none => rfl

/-! #### Typing directly -/

theorem latin_eq (tail : Text) :
    (ofSegment (.direct tail)).latin s event = .ofOutcome (s.latin tail event) := by
  unfold latin Situation.latin
  split_ifs
  · rfl
  · cases event.printable <;> rfl

theorem render_flush_ofDirect (tail : Text) :
    s.render ((ofSegment (.direct tail)).buffer.flush s.table).text = s.flushed tail := by
  simp [ofSegment, Situation.flushed, Buffer.flush, Buffer.append, Buffer.text, Buffer.okuriText]

theorem commitBuffer_eq (tail : Text) : (ofSegment (.direct tail)).commitBuffer s
    = .ofOutcome (s.commits .idle (s.flushed tail)) := by
  rw [← render_flush_ofDirect]
  rfl

theorem pop_ofDirect (tail : Text) :
    { ofSegment (.direct tail) with buffer := (ofSegment (.direct tail)).buffer.pop }
      = ofSegment (.direct tail.dropLast) := by
  cases tail <;> rfl

theorem isEmpty_ofDirect (tail : Text) :
    (ofSegment (.direct tail)).buffer.isEmpty = tail.isEmpty := rfl

theorem directCommand?_eq (tail : Text) : (ofSegment (.direct tail)).directCommand? s event
    = (s.directCommand? tail event).map .ofOutcome := by
  unfold directCommand? Situation.directCommand?
  rw [commitBuffer_eq]
  dsimp only
  split_ifs <;> rfl

/-! #### Writing an abbreviation -/

theorem pop_ofAbbreviation (letters : Text) :
    (ofSegment (.abbreviation letters)).pop
      = ofSegment (if letters.dropLast.isEmpty then .idle else .abbreviation letters.dropLast) := by
  have hbuffer : (ofSegment (.abbreviation letters)).buffer.pop = { kana := letters.dropLast } :=
    rfl
  have hempty : Buffer.isEmpty { kana := letters.dropLast } = letters.dropLast.isEmpty := by
    simp [Buffer.isEmpty]
  unfold pop
  dsimp only
  rw [hbuffer, hempty, apply_ite ofSegment]
  refine ite_congr rfl (fun h => ?_) fun _ => rfl
  rw [List.isEmpty_iff.mp h]
  rfl

theorem abbreviate_eq (letters : Text) :
    (ofSegment (.abbreviation letters)).abbreviate s event
      = .ofOutcome (s.abbreviate letters event) := by
  unfold abbreviate Situation.abbreviate
  rw [pop_ofAbbreviation, show (ofSegment (.abbreviation letters)).buffer.kana = letters from rfl]
  dsimp only
  split_ifs
  · rfl
  · exact congrArg (moves · s) (convert_eq (fun _ => rfl) _)
  · rfl
  · exact congrArg (moves · s) (complete_eq (.abbreviation letters) letters .abbreviation)
  · rfl
  · rfl
  · rfl
  · cases event.printable <;> rfl

/-! #### Choosing -/

theorem commitCurrent?_eq (m : Machine) (selection : Selection) :
    m.commitCurrent? s selection.shortlist = some (.ofOutcome (s.commitCurrent selection)) := by
  rw [commitCurrent?, selection.current?_shortlist]
  rfl

theorem purgeCurrent?_eq (m : Machine) (selection : Selection) :
    m.purgeCurrent? s selection.shortlist = some (.ofOutcome (s.purgeCurrent selection)) := by
  rw [purgeCurrent?, selection.current?_shortlist]
  rfl

/-! #### Registering a word -/

theorem confirm_eq (hplain : origin = .abbreviation → key.okuri = []) (m : Machine) (word : Text) :
    m.confirm s key origin word = .ofOutcome (s.confirm key origin word) := by
  unfold confirm Situation.confirm
  rw [apply_ite Effect.ofOutcome]
  refine ite_congr rfl (fun _ => ?_) fun _ => rfl
  rw [edit_eq hplain]
  rfl

end Machine

/-! ### Turns -/

namespace Leads

variable {event : KeyEvent} {s other : Situation} {handler next : Handler} {m : Machine}
  {first outcome : Outcome} {finish : Effect → Effect}

theorem of_done (h : m.turn s event handler = .done (some (.ofOutcome outcome))) :
    Leads event s handler m outcome :=
  ⟨[handler], .done h⟩

theorem of_calls {after : Machine} {last : Outcome}
    (h : m.turn s event handler = .calls other next after finish)
    (hrest : Leads event other next after last)
    (hfinish : finish (.ofOutcome last) = .ofOutcome outcome) :
    Leads event s handler m outcome := by
  obtain ⟨entered, hends⟩ := hrest
  have hcalls := Ends.calls h hends
  rw [Option.map_some, hfinish] at hcalls
  exact ⟨handler :: entered, hcalls⟩

open Machine

section

variable (hroom : 0 < s.settings.maxCompositionLength)
include hroom

/-- A new reading has room for the character that opens it. -/
theorem newReading {c : Char} (hc : event.printable = some c) :
    Leads event s .composing (ofSegment (.composing .empty)) (s.openReading event c) := by
  refine of_done ?_
  show composingTurn _ s event = _
  unfold composingTurn Situation.openReading
  rw [composeCommand?_eq, hc]
  cases s.composeCommand? .empty event with
  | some outcome => rfl
  | none =>
    have hfull : s.isFull (ofSegment (.composing .empty)).buffer = false := isFull_empty.mpr hroom
    dsimp only [Option.map_none]
    rw [hfull, if_neg Bool.false_ne_true, typeReading_eq]
    rfl

theorem typeDirect (tail : Text) {c : Char} (hc : event.printable = some c)
    (hturn : (ofSegment (.direct tail)).turn s event .direct
      = (ofSegment (.direct tail)).typeTurn s c) :
    Leads event s .direct (ofSegment (.direct tail)) (s.typeDirect tail event c) := by
  unfold typeTurn at hturn
  rw [commitBuffer_eq] at hturn
  unfold Situation.typeDirect
  split_ifs at hturn ⊢
  · exact of_calls hturn (newReading hroom hc) rfl
  · exact of_done hturn

theorem romaji (tail : Text) (hlatin : s.mode.isLatin = false) :
    Leads event s .direct (ofSegment (.direct tail)) (s.romaji tail event) := by
  have hturn : (ofSegment (.direct tail)).turn s event .direct
      = (ofSegment (.direct tail)).romajiTurn s event := by
    simp [turn, directTurn, hlatin]
  unfold romajiTurn at hturn
  rw [commitBuffer_eq, directCommand?_eq] at hturn
  unfold Situation.romaji
  dsimp only at hturn ⊢
  split_ifs at hturn ⊢
  · exact of_done hturn
  · rw [pop_ofDirect, isEmpty_ofDirect] at hturn
    exact of_done hturn
  · exact of_done hturn
  · exact of_done hturn
  · cases hc : event.printable with
    | none =>
      rw [hc] at hturn
      exact of_done hturn
    | some c =>
      rw [hc] at hturn
      dsimp only
      cases hcommand : s.directCommand? tail event with
      | some outcome =>
        rw [hcommand] at hturn
        exact of_done hturn
      | none =>
        rw [hcommand] at hturn
        exact typeDirect hroom tail hc hturn

theorem direct (tail : Text) :
    Leads event s .direct (ofSegment (.direct tail)) (s.direct tail event) := by
  unfold Situation.direct
  cases hlatin : s.mode.isLatin with
  | false => exact romaji hroom tail hlatin
  | true =>
    have hturn : (ofSegment (.direct tail)).turn s event .direct
        = .done ((ofSegment (.direct tail)).latin s event) := by
      simp [turn, directTurn, hlatin]
    rw [latin_eq] at hturn
    exact of_done hturn

theorem compose (b : Buffer) :
    Leads event s .composing (ofSegment (.composing b)) (s.compose b event) := by
  have hturn : (ofSegment (.composing b)).turn s event .composing
      = (ofSegment (.composing b)).composingTurn s event := rfl
  unfold composingTurn at hturn
  rw [composeCommand?_eq, commitReading_eq, show (ofSegment (.composing b)).buffer = b from rfl]
    at hturn
  unfold Situation.compose
  cases hcommand : s.composeCommand? b event with
  | some outcome =>
    rw [hcommand] at hturn
    exact of_done hturn
  | none =>
    rw [hcommand] at hturn
    cases hc : event.printable with
    | none =>
      rw [hc] at hturn
      exact of_done hturn
    | some c =>
      rw [hc] at hturn
      dsimp only [Option.map_none] at hturn ⊢
      split_ifs at hturn ⊢
      · -- the machine that the commit leaves is the one of the idle segment
        exact of_calls hturn (direct hroom []) rfl
      · rw [typeReading_eq] at hturn
        exact of_done hturn

theorem commitAndType {handler : Handler} (stay : Segment) (selection : Selection)
    (hturn : (ofSegment stay).turn s event handler
      = (ofSegment stay).typeBehind s selection.shortlist event) :
    Leads event s handler (ofSegment stay) (s.commitAndType stay selection event) := by
  unfold typeBehind at hturn
  rw [commitCurrent?_eq] at hturn
  unfold Situation.commitAndType
  cases hc : event.printable with
  | none =>
    rw [hc] at hturn
    exact of_done hturn
  | some c =>
    rw [hc] at hturn
    -- learning the candidate has changed the dictionaries and nothing else
    exact of_calls hturn
      (direct (s := { s with shelf := (s.commitCurrent selection).shelf }) hroom []) rfl

theorem select {selection : Selection} (h : selection.shortlist.IsConversion) :
    Leads event s .selecting (ofSegment (.selecting selection)) (s.select selection event) := by
  have hturn : (ofSegment (.selecting selection)).turn s event .selecting
      = (ofSegment (.selecting selection)).selectingTurn s event := rfl
  unfold selectingTurn at hturn
  dsimp only [ofSegment] at hturn
  rw [selection.step_shortlist, selection.step_shortlist, purgeCurrent?_eq, commitCurrent?_eq]
    at hturn
  unfold Situation.select
  dsimp only
  split_ifs at hturn ⊢
  · exact of_done hturn
  · exact of_done hturn
  · exact of_done hturn
  · exact of_done hturn
  · exact of_done hturn
  · rw [edit_eq h.key.plain] at hturn
    exact of_done hturn
  · exact of_done hturn
  · exact commitAndType hroom _ selection hturn

theorem complete {selection : Selection} (h : selection.shortlist.IsCompletion) :
    Leads event s .completing (ofSegment (.completing selection)) (s.complete selection event) := by
  have hturn : (ofSegment (.completing selection)).turn s event .completing
      = (ofSegment (.completing selection)).completingTurn s event := rfl
  unfold completingTurn at hturn
  dsimp only [ofSegment] at hturn
  rw [selection.step_shortlist, selection.step_shortlist, purgeCurrent?_eq, commitCurrent?_eq,
    selection.current?_shortlist] at hturn
  unfold Situation.complete
  dsimp only
  split_ifs at hturn ⊢
  · exact of_done hturn
  · exact of_done hturn
  · rw [Option.map_some, show selection.shortlist.origin = selection.origin from rfl,
      convert_eq (Selection.wellFormed_current h).plain] at hturn
    exact of_done hturn
  · rw [edit_eq h.key.plain] at hturn
    exact of_done hturn
  · exact of_done hturn
  · exact of_done hturn
  · exact commitAndType hroom _ selection hturn

end

/-- A registration, given what the key does inside. -/
theorem registering {key : ConversionKey} {origin : Origin} {text : Text} {inner : Segment}
    (hplain : origin = .abbreviation → key.okuri = []) (hcancel : s.binds .cancel event = false)
    (hinside : Leads event s.nested .any (ofSegment inner) (s.nested.handle inner event)) :
    Leads event s .registering (ofSegment (.registering key origin text inner))
      (s.handle (.registering key origin text inner) event) := by
  have hturn : (ofSegment (.registering key origin text inner)).turn s event .registering
      = (ofSegment (.registering key origin text inner)).registeringTurn s event := rfl
  unfold registeringTurn at hturn
  dsimp only [ofSegment] at hturn
  unfold Situation.handle
  rw [hcancel, if_neg Bool.false_ne_true]
  -- a machine that is typed directly leaves two keys to the registration, any other one none
  cases inner with
  | direct tail =>
    rw [render_flush_ofDirect, show (ofSegment (.direct tail)).state.isDirect = true from rfl,
      show (ofSegment (.direct tail)).buffer.tail = tail from rfl, Bool.true_and, Bool.true_and]
      at hturn
    dsimp only
    unfold Situation.registrationCommand?
    split_ifs at hturn ⊢
    · rw [confirm_eq hplain] at hturn
      exact of_done hturn
    · exact of_done hturn
    · exact of_calls hturn hinside rfl
  | _ => exact of_calls hturn hinside rfl

/-- The key goes to the function for the state, unless it cancels. -/
theorem any {segment : Segment} (hdirect : (ofSegment segment).state.isDirect = false)
    (h : s.binds .cancel event = false →
      Leads event s (.ofState (ofSegment segment).state) (ofSegment segment)
        (s.handle segment event)) :
    Leads event s .any (ofSegment segment) (s.handle segment event) := by
  have hturn : (ofSegment segment).turn s event .any = (ofSegment segment).anyTurn s event := rfl
  unfold anyTurn at hturn
  rw [hdirect, Bool.not_false, Bool.true_and] at hturn
  cases hcancel : s.binds .cancel event with
  | true =>
    rw [hcancel, if_pos rfl] at hturn
    have hne : ∀ tail, segment ≠ .direct tail := by
      rintro tail rfl
      exact Bool.noConfusion hdirect
    rw [Situation.handle_of_cancel hcancel hne]
    exact of_done hturn
  | false =>
    rw [hcancel, if_neg Bool.false_ne_true] at hturn
    exact of_calls hturn (h hcancel) rfl

end Leads

/-! ### Any key -/

namespace Machine

/-- **A key leads from the machine of a segment to the machine of the segment that handling gives.**
The induction is on the segment: inside a registration it is smaller. -/
theorem leads_any {s : Situation} (hroom : 0 < s.settings.maxCompositionLength)
    (event : KeyEvent) {segment : Segment}
    (hclauses : ∀ part ∈ (ofSegment segment).chain, part.Clause s.table) :
    Leads event s .any (ofSegment segment) (s.handle segment event) := by
  induction segment generalizing s with
  | direct tail =>
    -- the cancel key, too, is for direct typing
    exact Leads.of_calls rfl (Leads.direct hroom tail) rfl
  | composing b =>
    refine Leads.any rfl fun hcancel => ?_
    rw [Situation.handle_composing hcancel]
    exact Leads.compose hroom b
  | abbreviation letters =>
    refine Leads.any rfl fun hcancel => ?_
    rw [Situation.handle_abbreviation hcancel]
    exact Leads.of_done (congrArg (Turn.done ∘ some) (abbreviate_eq letters))
  | selecting selection =>
    refine Leads.any rfl fun hcancel => ?_
    obtain ⟨-, -, -, hconversion⟩ := hclauses _ List.mem_cons_self
    rw [Situation.handle_selecting hcancel]
    exact Leads.select hroom hconversion
  | completing selection =>
    refine Leads.any rfl fun hcancel => ?_
    obtain ⟨-, -, -, hcompletion⟩ := hclauses _ List.mem_cons_self
    rw [Situation.handle_completing hcancel]
    exact Leads.complete hroom hcompletion
  | registering key origin text inner ih =>
    refine Leads.any rfl fun hcancel => ?_
    obtain ⟨-, -, hkey⟩ := hclauses _ List.mem_cons_self
    have hinside : ∀ part ∈ (ofSegment inner).chain, part.Clause s.nested.table :=
      fun part hpart => hclauses part (List.mem_cons_of_mem _ hpart)
    exact Leads.registering hkey.plain hcancel (ih hroom hinside)

end Machine

end KanaKanji

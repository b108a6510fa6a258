/-
Calls: the functions that handle a key come to an end.

Direct typing and composing call each other on the same key, so nothing about the key gets smaller.
What ends them is the buffer: whatever machine direct typing is called on, it commits the buffer
before it opens a reading, and a reading with nothing in it has room for a character.  Registrations
end because the machine inside one is smaller.

* `Machine.calls_of_turn`: which function calls which, and on which machines;
* `Machine.endsWithin`: with room for one character of a reading the turns of every function on
  every machine end, with composing entered twice at most;
* `Machine.Opens.ends_of_full`, `Machine.Opens.not_ends`: that bound is reached, and without room a
  capital never comes to an end;
* `Settings.positive_of_ofText`: the settings of a document have that room.
-/
import KanaKanji.Session.Turn
import KanaKanji.Proofs.Session.Overflow
import KanaKanji.Romaji.Builtin
import KanaKanji.Proofs.Settings.Overriding

namespace KanaKanji

/-! ### Which function calls which -/

/-- One function on a machine calls another on a machine: composing is called with nothing in the
buffer, and calls only when the buffer is full. -/
inductive Calls (s : Situation) : Handler → Machine → Handler → Machine → Prop
  | state (m : Machine) : Calls s .any m (.ofState m.state) m
  | capital {m next : Machine} (empty : next.buffer = .empty) : Calls s .direct m .composing next
  | overflow {m next : Machine} (full : s.isFull m.buffer = true) :
    Calls s .composing m .direct next
  | selected {m next : Machine} : Calls s .selecting m .direct next
  | completed {m next : Machine} : Calls s .completing m .direct next
  | inside {outer : Buffer} (key : ConversionKey) (origin : Origin) (text : Text) (buffer : Buffer)
    (inner : Machine.State) :
    Calls s .registering ⟨outer, .registering key origin text buffer inner⟩ .any ⟨buffer, inner⟩

namespace Machine

variable {s other : Situation} {event : KeyEvent} {handler next : Handler} {m after : Machine}
  {finish : Effect → Effect}

theorem of_andThen {first : Effect} {called : Handler} {ending : Effect → Effect}
    (h : first.andThen s called ending = .calls other next after finish) :
    other.settings = s.settings ∧ next = called ∧ after = first.machine := by
  obtain ⟨rfl, rfl, rfl, -⟩ := Turn.calls.inj h
  exact ⟨rfl, rfl, rfl⟩

theorem of_typeBehind {list : Shortlist}
    (h : m.typeBehind s list event = .calls other next after finish) :
    other.settings = s.settings ∧ next = .direct := by
  unfold typeBehind at h
  split at h
  · exact Turn.noConfusion h
  · split at h
    · exact Turn.noConfusion h
    · obtain ⟨hsettings, hnext, -⟩ := of_andThen h
      exact ⟨hsettings, hnext⟩

/-- Direct typing commits the buffer, whatever is in it, before it calls. -/
theorem of_directTurn (h : m.directTurn s event = .calls other next after finish) :
    other.settings = s.settings ∧ next = .composing ∧ after.buffer = .empty := by
  unfold directTurn romajiTurn typeTurn at h
  dsimp only at h
  split_ifs at h
  split at h
  · exact Turn.noConfusion h
  · split at h
    · exact Turn.noConfusion h
    · split at h
      · obtain ⟨hsettings, hnext, rfl⟩ := of_andThen h
        exact ⟨hsettings, hnext, rfl⟩
      · exact Turn.noConfusion h

theorem of_composingTurn (h : m.composingTurn s event = .calls other next after finish) :
    other.settings = s.settings ∧ next = .direct ∧ s.isFull m.buffer = true := by
  unfold composingTurn at h
  split at h
  · exact Turn.noConfusion h
  · split at h
    · exact Turn.noConfusion h
    · split at h
      · rename_i hfull
        obtain ⟨hsettings, hnext, -⟩ := of_andThen h
        exact ⟨hsettings, hnext, hfull⟩
      · exact Turn.noConfusion h

theorem of_selectingTurn (h : m.selectingTurn s event = .calls other next after finish) :
    other.settings = s.settings ∧ next = .direct := by
  unfold selectingTurn at h
  split at h
  · split_ifs at h
    exact of_typeBehind h
  · exact Turn.noConfusion h

theorem of_completingTurn (h : m.completingTurn s event = .calls other next after finish) :
    other.settings = s.settings ∧ next = .direct := by
  unfold completingTurn at h
  split at h
  · split_ifs at h
    exact of_typeBehind h
  · exact Turn.noConfusion h

/-- A call is one of these, in a situation with the same settings. -/
theorem calls_of_turn (h : m.turn s event handler = .calls other next after finish) :
    other.settings = s.settings ∧ Calls s handler m next after := by
  cases handler with
  | any =>
    have hany : m.anyTurn s event = .calls other next after finish := h
    unfold anyTurn at hany
    split at hany
    · exact Turn.noConfusion hany
    · obtain ⟨rfl, rfl, rfl, -⟩ := Turn.calls.inj hany
      exact ⟨rfl, .state m⟩
  | direct =>
    obtain ⟨hsettings, rfl, hempty⟩ := of_directTurn h
    exact ⟨hsettings, .capital hempty⟩
  | composing =>
    obtain ⟨hsettings, rfl, hfull⟩ := of_composingTurn h
    exact ⟨hsettings, .overflow hfull⟩
  | abbreviation => exact Turn.noConfusion h
  | selecting =>
    obtain ⟨hsettings, rfl⟩ := of_selectingTurn h
    exact ⟨hsettings, .selected⟩
  | completing =>
    obtain ⟨hsettings, rfl⟩ := of_completingTurn h
    exact ⟨hsettings, .completed⟩
  | registering =>
    obtain ⟨outer, state⟩ := m
    have hregistering : registeringTurn ⟨outer, state⟩ s event = .calls other next after finish := h
    unfold registeringTurn at hregistering
    split at hregistering
    · rename_i key origin text buffer inner hstate
      obtain rfl : state = .registering key origin text buffer inner := hstate
      split_ifs at hregistering
      obtain ⟨rfl, rfl, rfl, -⟩ := Turn.calls.inj hregistering
      exact ⟨rfl, .inside key origin text buffer inner⟩
    · exact Turn.noConfusion hregistering

end Machine

/-! ### Turns that end -/

/-- The turns end, and composing is entered so many times at most. -/
def EndsWithin (times : Nat) (s : Situation) (event : KeyEvent) (handler : Handler) (m : Machine) :
    Prop :=
  ∃ effect? entered, Ends event s handler m effect? entered ∧ entered.count .composing ≤ times

namespace EndsWithin

variable {s : Situation} {event : KeyEvent} {handler : Handler} {m : Machine}

theorem mono {less more : Nat} (h : EndsWithin less s event handler m) (hle : less ≤ more) :
    EndsWithin more s event handler m := by
  obtain ⟨effect?, entered, hends, hcount⟩ := h
  exact ⟨effect?, entered, hends, Nat.le_trans hcount hle⟩

/-- A function ends when all that it calls do; composing adds an entry of its own. -/
theorem of_calls (times : Nat) {total : Nat} (hroom : 0 < s.settings.maxCompositionLength)
    (htotal : times + (if handler = .composing then 1 else 0) ≤ total)
    (h : ∀ other next after, 0 < other.settings.maxCompositionLength →
      Calls s handler m next after → EndsWithin times other event next after) :
    EndsWithin total s event handler m := by
  cases hturn : m.turn s event handler with
  | done effect? =>
    refine ⟨effect?, [handler], .done hturn, ?_⟩
    rw [List.count_singleton]
    simp only [beq_iff_eq]
    omega
  | calls other next after finish =>
    obtain ⟨hsettings, hcalls⟩ := Machine.calls_of_turn hturn
    obtain ⟨effect?, entered, hends, hcount⟩ :=
      h other next after (by rw [hsettings]; exact hroom) hcalls
    refine ⟨effect?.map finish, handler :: entered, .calls hturn hends, ?_⟩
    rw [List.count_cons]
    simp only [beq_iff_eq]
    omega

end EndsWithin

namespace Machine

variable {s : Situation} {event : KeyEvent} {m : Machine}

/-- There is room for the first character of a reading. -/
theorem isFull_empty : s.isFull .empty = false ↔ 0 < s.settings.maxCompositionLength := by
  simp [Situation.isFull, Buffer.empty, Buffer.text, Buffer.okuriText, Nat.pos_iff_ne_zero]

section

variable (hroom : 0 < s.settings.maxCompositionLength)
include hroom

/-- With nothing in the buffer there is room for the character, so that composing calls nothing. -/
theorem endsWithin_newReading (hempty : m.buffer = .empty) :
    EndsWithin 1 s event .composing m := by
  refine .of_calls 0 hroom (Nat.le_refl 1) ?_
  intro other next after _ hcalls
  cases hcalls with
  | overflow hfull =>
    rw [hempty, isFull_empty.mpr hroom] at hfull
    exact absurd hfull Bool.false_ne_true

theorem endsWithin_direct (m : Machine) : EndsWithin 1 s event .direct m := by
  refine .of_calls 1 hroom (Nat.le_refl 1) ?_
  intro other next after hother hcalls
  cases hcalls with
  | capital hempty => exact endsWithin_newReading hother hempty

theorem endsWithin_composing (m : Machine) : EndsWithin 2 s event .composing m := by
  refine .of_calls 1 hroom (Nat.le_refl 2) ?_
  intro other next after hother hcalls
  cases hcalls with
  | overflow hfull => exact endsWithin_direct hother after

/-- What neither composes nor hands the key on calls direct typing at most. -/
theorem endsWithin_once {handler : Handler}
    (hhandler : handler ∈ [.direct, .abbreviation, .selecting, .completing]) (m : Machine) :
    EndsWithin 1 s event handler m := by
  by_cases hdirect : handler = .direct
  · rw [hdirect]
    exact endsWithin_direct hroom m
  · have hne : handler ≠ .composing := by
      rintro rfl
      exact absurd hhandler (by decide)
    refine .of_calls 1 hroom (by simp [hne]) ?_
    intro other next after hother hcalls
    cases hcalls with
    | selected => exact endsWithin_direct hother after
    | completed => exact endsWithin_direct hother after
    | capital _ => exact absurd rfl hdirect
    | overflow _ => exact absurd rfl hne
    | state _ => exact absurd hhandler (by decide)
    | inside _ _ _ _ _ => exact absurd hhandler (by decide)

end

/-- Any machine ends a key.  The induction follows the registrations, since each hands the key on to
the machine inside it; of the others only one that composes enters composing twice. -/
theorem endsWithin_any (state : State) (buffer : Buffer) (s : Situation)
    (hroom : 0 < s.settings.maxCompositionLength) :
    EndsWithin 2 s event .any ⟨buffer, state⟩ := by
  refine .of_calls 2 hroom (Nat.le_refl 2) ?_
  intro other next after hother hcalls
  obtain _ | _ := hcalls
  induction state generalizing buffer s other with
  | composing => exact endsWithin_composing hother _
  | registering key origin text inside inner ih =>
    refine .of_calls 2 hother (Nat.le_refl 2) ?_
    intro nested next after hnested hcalls
    obtain _ | _ := hcalls
    refine .of_calls 2 hnested (Nat.le_refl 2) ?_
    intro last next after hlast hcalls
    obtain _ | _ := hcalls
    exact ih inside nested hnested last hlast
  | _ => exact (endsWithin_once hother (by simp [Handler.ofState]) _).mono (Nat.le_succ 1)

/-- **Every function ends on every machine.** -/
theorem endsWithin (hroom : 0 < s.settings.maxCompositionLength) (handler : Handler)
    (m : Machine) : EndsWithin 2 s event handler m := by
  cases handler with
  | any => exact endsWithin_any m.state m.buffer s hroom
  | composing => exact endsWithin_composing hroom m
  | registering =>
    refine .of_calls 2 hroom (Nat.le_refl 2) ?_
    intro other next after hother hcalls
    cases hcalls with
    | inside key origin text buffer inner => exact endsWithin_any inner buffer other hother
  | _ => exact (endsWithin_once hroom (by decide) m).mono (Nat.le_succ 1)

end Machine

/-! ### Capitals -/

namespace Machine

/-- The key types a capital and gives no command, so that direct typing opens a reading. -/
structure Opens (s : Situation) (event : KeyEvent) (c : Char) : Prop where
  printable : event.printable = some c
  upper : c.isUpper = true
  mode : s.mode.isLatin = false
  free : ∀ command, s.binds command event = false

variable {s : Situation} {event : KeyEvent} {c : Char} {m : Machine}

/-- The machine on which direct typing calls composing for a capital. -/
def opened (m : Machine) : Machine :=
  m.clear.enter .composing

theorem Opens.turn_any (h : Opens s event c) (m : Machine) :
    m.turn s event .any = .calls s (.ofState m.state) m id := by
  simp [turn, anyTurn, h.free]

theorem Opens.turn_registering (h : Opens s event c) (outer buffer : Buffer)
    (key : ConversionKey) (origin : Origin) (text : Text) (inner : State) :
    ∃ finish, turn ⟨outer, .registering key origin text buffer inner⟩ s event .registering
      = .calls s.nested .any ⟨buffer, inner⟩ finish := by
  simp [turn, registeringTurn, h.free]

theorem Opens.turn_direct (h : Opens s event c) (m : Machine) :
    m.turn s event .direct
      = { m.commitBuffer s with machine := m.opened }.andThen s .composing id := by
  simp [turn, directTurn, romajiTurn, directCommand?, typeTurn, h.mode, h.free, h.printable,
    h.upper, opened, commitBuffer, commits, flush, clear]

theorem Opens.turn_composing (h : Opens s event c) (m : Machine) :
    m.turn s event .composing
      = if s.isFull m.buffer then (m.commitReading s s.render).andThen s .direct id
        else .done ((m.typeReading s c).moves s) := by
  simp [turn, composingTurn, composeCommand?, h.free, h.printable]

/-- A capital that finds the buffer full enters composing twice: the bound is reached. -/
theorem Opens.ends_of_full (h : Opens s event c) (hroom : 0 < s.settings.maxCompositionLength)
    (hfull : s.isFull m.buffer = true) :
    ∃ effect, Ends event s .composing m (some effect) [.composing, .direct, .composing] := by
  have hfirst := h.turn_composing m
  have hlast := h.turn_composing (m.clear.enter .direct).opened
  rw [hfull, if_pos rfl] at hfirst
  rw [show ((m.clear.enter .direct).opened).buffer = .empty from rfl, isFull_empty.mpr hroom,
    if_neg Bool.false_ne_true] at hlast
  exact ⟨_, .calls hfirst (.calls (h.turn_direct _) (.done hlast))⟩

/-- Without room for a single character, direct typing and composing call each other on a capital
again and again.  The induction is on the turns, which would have to end in one of the two. -/
theorem Opens.not_ends (h : Opens s event c) (hno : s.settings.maxCompositionLength = 0)
    {handler : Handler} {effect? : Option Effect} {entered : List Handler}
    (hends : Ends event s handler m effect? entered) :
    handler ≠ .composing ∧ handler ≠ .direct := by
  induction hends with
  | done hturn =>
    constructor
    · rintro rfl
      rw [h.turn_composing] at hturn
      simp [Situation.isFull, hno, Effect.andThen] at hturn
    · rintro rfl
      rw [h.turn_direct] at hturn
      exact Turn.noConfusion hturn
  | calls hturn _ ih =>
    constructor
    · rintro rfl
      rw [h.turn_composing] at hturn
      simp only [Situation.isFull, hno, Nat.zero_le, decide_true, if_pos] at hturn
      obtain ⟨rfl, rfl, rfl, -⟩ := Turn.calls.inj hturn
      exact (ih h hno).2 rfl
    · rintro rfl
      rw [h.turn_direct] at hturn
      obtain ⟨rfl, rfl, rfl, -⟩ := Turn.calls.inj hturn
      exact (ih h hno).1 rfl

end Machine

/-! ### Settings of documents -/

namespace Settings

/-- The settings of a document have room for a registration, a character of a reading and a
completion, and no keyword is empty. -/
theorem positive_of_ofText {document : Text} {settings : Settings}
    (h : ofText document = .ok settings) :
    0 < settings.maxCompositionLength ∧ 0 < settings.maxRegistrationDepth ∧
      0 < settings.maxCompletions ∧ [] ∉ settings.autoStartKeywords := by
  unfold ofText at h
  split at h
  · obtain ⟨hfault, keymap, -, rfl⟩ := SettingsDocument.settings_eq_ok_iff.mp h
    obtain ⟨hdepth, hlength, hrest⟩ := SettingsDocument.fault?_eq_none_iff.mp hfault
    exact ⟨hlength, hdepth, hrest⟩
  · exact nomatch h

end Settings

/-! ### Any key -/

/-- **Handling a key ends**, whatever function is called on whatever machine, when the settings have
room for a character of a reading, as those of every document have; and however the key is handed
on, composing is entered twice at most. -/
theorem handling_ends :
    (∀ {document : Text} {settings : Settings}, Settings.ofText document = .ok settings →
      1 ≤ settings.maxCompositionLength ∧ 1 ≤ settings.maxRegistrationDepth ∧
        1 ≤ settings.maxCompletions ∧ ∀ keyword ∈ settings.autoStartKeywords, keyword ≠ []) ∧
    ∀ (s : Situation) (handler : Handler) (m : Machine) (event : KeyEvent),
      1 ≤ s.settings.maxCompositionLength →
        ∃ effect? entered, Ends event s handler m effect? entered ∧
          entered.count .composing ≤ 2 := by
  constructor
  · intro document settings h
    obtain ⟨hlength, hdepth, hcompletions, hkeywords⟩ := Settings.positive_of_ofText h
    refine ⟨hlength, hdepth, hcompletions, ?_⟩
    rintro keyword hmem rfl
    exact hkeywords hmem
  · intro s handler m event hroom
    exact Machine.endsWithin hroom handler m

/-- A document with the smallest limits gives settings.  With room for a single character, a capital
is composed, typed directly and composed again, also by a machine that no session has, where a text
with okurigana has been left in the buffer of a registration. -/
theorem handling_ends_capital :
    let document := "[limits]\nmax_registration_depth = 1\nmax_composition_length = 1\n".toList
    let s : Situation :=
      { settings := { Settings.builtin with maxCompositionLength := 1 }
        table := RomajiTable.builtin, layers := [], depth := 0, mode := .hiragana, shelf := [] }
    let left : Buffer := { kana := "あ".toList, okuri := some [], tail := "k".toList }
    let m : Machine := ⟨left, .registering { yomi := "い".toList } .kana [] left .composing⟩
    (∃ settings, Settings.ofText document = .ok settings ∧ 1 ≤ settings.maxCompositionLength) ∧
    1 ≤ s.settings.maxCompositionLength ∧
    ∃ effect? entered, Ends (.ofChar 'K') s .any m effect? entered ∧
      entered.count .composing ≤ 2 ∧
      entered = [.any, .registering, .any, .composing, .direct, .composing] := by
  intro document s left m
  obtain ⟨hdocuments, hends⟩ := handling_ends
  have hroom : 1 ≤ s.settings.maxCompositionLength := Nat.le_refl 1
  refine ⟨?_, hroom, ?_⟩
  · have hok : (Settings.ofText document).isOk = true := by decide +kernel
    cases hsettings : Settings.ofText document with
    | error e =>
      rw [hsettings] at hok
      exact nomatch hok
    | ok settings => exact ⟨settings, rfl, (hdocuments hsettings).1⟩
  · obtain ⟨effect?, entered, h, hcount⟩ := hends s .any m (.ofChar 'K') hroom
    have hfree : ∀ command, s.binds command (.ofChar 'K') = false := by decide +kernel
    have hopens : Machine.Opens s (.ofChar 'K') 'K' := ⟨by decide +kernel, by decide, rfl, hfree⟩
    have hinside : Machine.Opens s.nested (.ofChar 'K') 'K' :=
      ⟨hopens.printable, hopens.upper, hopens.mode, hopens.free⟩
    obtain ⟨effect, htwice⟩ := hinside.ends_of_full (m := ⟨left, .composing⟩) hroom (by decide)
    obtain ⟨finish, hregistering⟩ :=
      hopens.turn_registering left left { yomi := "い".toList } .kana [] .composing
    have htrace := Ends.calls (hopens.turn_any m)
      (.calls hregistering (.calls (hinside.turn_any _) htwice))
    obtain ⟨rfl, rfl⟩ := h.unique htrace
    exact ⟨_, _, h, hcount, rfl⟩

end KanaKanji

/-
Segments inside registrations.

`Segment.inside` puts a segment into registrations that are open one in the other.  A key
that none of them takes for itself reaches the segment, and what the segment commits goes to
the word of the innermost registration:

* `Situation.handle_inside`: so the key does to the segment what it does at that depth;
* `Situation.within?_handle`: and what it leaves there is what the segment leads to.

The depth matters only through the room that is left for more registrations:

* `Situation.handle_withLimit`: a lower limit at a lower depth with the same room changes
  nothing.

Design notes: `Situation.withLimit` replaces the limit and the depth together, so that all
handlers that open no registration are equal on both sides by definition.
-/
import KanaKanji.Proofs.Session.WellFormed

namespace KanaKanji

/-! ### The depth of a situation -/

namespace Situation

/-- The situation under another limit and at another depth. -/
def withLimit (s : Situation) (limit depth : Nat) : Situation :=
  { s with settings := { s.settings with maxRegistrationDepth := limit }, depth := depth }

/-- The situation so many registrations deeper. -/
def deeper (s : Situation) (levels : Nat) : Situation :=
  { s with depth := s.depth + levels }

theorem nested_deeper (s : Situation) (levels : Nat) :
    s.nested.deeper levels = s.deeper (levels + 1) := by
  simp [deeper, nested]
  omega

variable {s : Situation} {limit depth : Nat}

theorem canRegister_eq_decide_room (s : Situation) : s.canRegister = decide (0 < s.room) := by
  have h : s.depth < s.settings.maxRegistrationDepth ↔ 0 < s.room := by
    show _ ↔ 0 < s.settings.maxRegistrationDepth - s.depth
    omega
  simp [canRegister, h]

/-- The room inside a registration follows from the room around it. -/
theorem room_withLimit_nested (h : (s.withLimit limit depth).room = s.room) :
    (s.nested.withLimit limit (depth + 1)).room = s.nested.room := by
  have hroom : limit - depth = s.settings.maxRegistrationDepth - s.depth := h
  show limit - (depth + 1) = s.settings.maxRegistrationDepth - (s.depth + 1)
  omega

section SameRoom

variable (h : (s.withLimit limit depth).room = s.room)
include h

theorem canRegister_withLimit : (s.withLimit limit depth).canRegister = s.canRegister := by
  rw [canRegister_eq_decide_room, canRegister_eq_decide_room, h]

theorem conversion_withLimit (key : ConversionKey) (origin : Origin) :
    (s.withLimit limit depth).conversion key origin = s.conversion key origin := by
  unfold conversion
  rw [canRegister_withLimit h]
  rfl

/-! #### Typing -/

theorem convert_withLimit (b : Buffer) :
    (s.withLimit limit depth).convert b = s.convert b := by
  unfold convert
  simp only [conversion_withLimit h]
  rfl

theorem composeCommand?_withLimit (b : Buffer) (event : KeyEvent) :
    (s.withLimit limit depth).composeCommand? b event = s.composeCommand? b event := by
  unfold composeCommand?
  rw [convert_withLimit h]
  rfl

theorem afterTyping_withLimit (old b : Buffer) :
    (s.withLimit limit depth).afterTyping old b = s.afterTyping old b := by
  unfold afterTyping
  simp only [conversion_withLimit h]
  rfl

theorem typeReading_withLimit (b : Buffer) (c : Char) :
    (s.withLimit limit depth).typeReading b c = s.typeReading b c := by
  unfold typeReading
  rw [afterTyping_withLimit h]
  rfl

theorem openReading_withLimit (event : KeyEvent) (c : Char) :
    (s.withLimit limit depth).openReading event c = s.openReading event c := by
  unfold openReading
  rw [composeCommand?_withLimit h, typeReading_withLimit h]

theorem typeDirect_withLimit (tail : Text) (event : KeyEvent) (c : Char) :
    (s.withLimit limit depth).typeDirect tail event c = s.typeDirect tail event c := by
  unfold typeDirect
  rw [openReading_withLimit h]
  rfl

theorem romaji_withLimit (tail : Text) (event : KeyEvent) :
    (s.withLimit limit depth).romaji tail event = s.romaji tail event := by
  unfold romaji
  simp only [typeDirect_withLimit h]
  rfl

theorem direct_withLimit (tail : Text) (event : KeyEvent) :
    (s.withLimit limit depth).direct tail event = s.direct tail event := by
  unfold direct
  rw [romaji_withLimit h]
  rfl

theorem compose_withLimit (b : Buffer) (event : KeyEvent) :
    (s.withLimit limit depth).compose b event = s.compose b event := by
  unfold compose
  simp only [composeCommand?_withLimit h, typeReading_withLimit h]
  have hdirect : ((s.withLimit limit depth).commitKana (s.withLimit limit depth).render b).andThen
      (s.withLimit limit depth) (fun s => s.direct [] event) =
      (s.commitKana s.render b).andThen s fun s => s.direct [] event :=
    congrArg (fun outcome : Outcome => outcome.after (s.commitKana s.render b).committed)
      (direct_withLimit h [] event)
  rw [hdirect]
  rfl

theorem abbreviate_withLimit (letters : Text) (event : KeyEvent) :
    (s.withLimit limit depth).abbreviate letters event = s.abbreviate letters event := by
  unfold abbreviate
  simp only [conversion_withLimit h]
  rfl

/-! #### Choosing -/

theorem commitAndType_withLimit (stay : Segment) (selection : Selection) (event : KeyEvent) :
    (s.withLimit limit depth).commitAndType stay selection event
      = s.commitAndType stay selection event := by
  unfold commitAndType
  -- the commit changes the dictionaries on both sides alike
  have hdirect : ((s.withLimit limit depth).commitCurrent selection).andThen
      (s.withLimit limit depth) (fun s => s.direct [] event) =
      (s.commitCurrent selection).andThen s fun s => s.direct [] event :=
    congrArg (fun outcome : Outcome => outcome.after (s.commitCurrent selection).committed)
      (direct_withLimit (s := { s with shelf := (s.commitCurrent selection).shelf }) h [] event)
  rw [hdirect]
  rfl

theorem select_withLimit (selection : Selection) (event : KeyEvent) :
    (s.withLimit limit depth).select selection event = s.select selection event := by
  unfold select
  simp only [canRegister_withLimit h, commitAndType_withLimit h]
  rfl

theorem complete_withLimit (selection : Selection) (event : KeyEvent) :
    (s.withLimit limit depth).complete selection event = s.complete selection event := by
  unfold complete
  simp only [conversion_withLimit h, commitAndType_withLimit h]
  rfl

end SameRoom

/-- **Only the room for more registrations tells a depth from another.** -/
theorem handle_withLimit (s : Situation) {limit depth : Nat}
    (h : (s.withLimit limit depth).room = s.room) (segment : Segment) (event : KeyEvent) :
    (s.withLimit limit depth).handle segment event = s.handle segment event := by
  induction segment generalizing s depth with
  | direct tail => exact direct_withLimit h tail event
  | composing b =>
    unfold handle
    rw [compose_withLimit h]
    rfl
  | abbreviation letters =>
    unfold handle
    rw [abbreviate_withLimit h]
    rfl
  | selecting selection =>
    unfold handle
    rw [select_withLimit h]
    rfl
  | completing selection =>
    unfold handle
    rw [complete_withLimit h]
    rfl
  | registering key origin text inner ih =>
    have hinner : (s.withLimit limit depth).nested.handle inner event
        = s.nested.handle inner event := ih s.nested (room_withLimit_nested h)
    unfold handle
    rw [hinner]
    rfl

end Situation

/-! ### Segments inside registrations -/

/-- An open registration, without the segment that spells its word. -/
structure Registration where
  key : ConversionKey
  origin : Origin
  /-- The word so far. -/
  text : Text

namespace Registration

/-- The registration with more text at the end of its word. -/
def spell (registration : Registration) (text : Text) : Registration :=
  { registration with text := registration.text ++ text }

end Registration

namespace Segment

/-- The segment inside registrations, the outermost first. -/
def inside : List Registration → Segment → Segment
  | [], segment => segment
  | r :: registrations, segment =>
    registering r.key r.origin r.text (inside registrations segment)

/-- What lies inside so many registrations, if so many are open. -/
def within? : Nat → Segment → Option Segment
  | 0, segment => some segment
  | depth + 1, registering _ _ _ inner => inner.within? depth
  | _ + 1, _ => none

theorem inside_append (first second : List Registration) (segment : Segment) :
    segment.inside (first ++ second) = (segment.inside second).inside first := by
  induction first with
  | nil => rfl
  | cons r first ih => exact congrArg (registering r.key r.origin r.text) ih

theorem within?_inside (registrations : List Registration) (segment : Segment) :
    (segment.inside registrations).within? registrations.length = some segment := by
  induction registrations with
  | nil => rfl
  | cons r registrations ih => exact ih

/-- What lies inside so many registrations is inside just these. -/
theorem exists_inside_of_within? {depth : Nat} {segment part : Segment}
    (h : segment.within? depth = some part) :
    ∃ registrations : List Registration,
      registrations.length = depth ∧ segment = part.inside registrations := by
  induction depth generalizing segment with
  | zero => exact ⟨[], rfl, Option.some.inj h⟩
  | succ depth ih =>
    cases segment with
    | registering key origin text inner =>
      have hinner : inner.within? depth = some part := h
      obtain ⟨registrations, rfl, rfl⟩ := ih hinner
      exact ⟨⟨key, origin, text⟩ :: registrations, rfl, rfl⟩
    | _ => exact nomatch h

/-- What lies inside ends in the same segment as the whole. -/
theorem innermost_of_within? {depth : Nat} {segment part : Segment}
    (h : segment.within? depth = some part) : segment.innermost = part.innermost := by
  induction depth generalizing segment with
  | zero => exact congrArg innermost (Option.some.inj h)
  | succ depth ih =>
    cases segment with
    | registering key origin text inner =>
      show inner.innermost = part.innermost
      exact ih h
    | _ => exact nomatch h

/-- What lies inside a well-formed segment keeps to its clause. -/
theorem WellFormed.clause_of_within? {table : RomajiTable} {room depth : Nat}
    {segment part : Segment} (h : segment.WellFormed table room)
    (hpart : segment.within? depth = some part) : (Machine.ofSegment part).Clause table := by
  refine h.clauses (Machine.ofSegment part) ?_
  clear h
  induction depth generalizing segment with
  | zero =>
    obtain rfl := Option.some.inj hpart
    cases segment <;> exact List.mem_cons_self
  | succ depth ih =>
    cases segment with
    | registering key origin text inner => exact List.mem_cons_of_mem _ (ih hpart)
    | _ => exact nomatch hpart

/-- What receives the keys lies inside some number of registrations. -/
theorem exists_within?_innermost (segment : Segment) :
    ∃ depth, segment.within? depth = some segment.innermost := by
  induction segment with
  | registering key origin text inner ih =>
    obtain ⟨depth, h⟩ := ih
    exact ⟨depth + 1, h⟩
  | _ => exact ⟨0, rfl⟩

end Segment

namespace Situation

/-- The key is for the segment even when it lies inside registrations: it does not cancel,
and while the segment is typed directly it neither confirms the registration nor deletes
from its word. -/
def PassesTo (s : Situation) (segment : Segment) (event : KeyEvent) : Prop :=
  s.binds .cancel event = false ∧
  match segment with
  | .direct tail =>
    (s.binds .commit event = true →
      s.mode.isLatin = true ∧ s.binds .hiraganaMode event = true) ∧
    (s.binds .delete event = true → tail ≠ [])
  | _ => True

instance (s : Situation) (segment : Segment) (event : KeyEvent) :
    Decidable (s.PassesTo segment event) :=
  match segment with
  | .direct _ => inferInstanceAs (Decidable (_ ∧ _ ∧ _))
  | .composing _ => inferInstanceAs (Decidable (_ ∧ True))
  | .abbreviation _ => inferInstanceAs (Decidable (_ ∧ True))
  | .selecting _ => inferInstanceAs (Decidable (_ ∧ True))
  | .completing _ => inferInstanceAs (Decidable (_ ∧ True))
  | .registering _ _ _ _ => inferInstanceAs (Decidable (_ ∧ True))

theorem registrationCommand?_eq_none {s : Situation} {key : ConversionKey} {origin : Origin}
    {text tail : Text} {event : KeyEvent} (h : s.PassesTo (.direct tail) event) :
    s.registrationCommand? key origin text tail event = none := by
  obtain ⟨-, hcommit, hdelete⟩ := h
  unfold registrationCommand? leavesLatin
  rw [if_neg, if_neg]
  · simp only [Bool.and_eq_true, List.isEmpty_iff, not_and]
    exact hdelete
  · simp only [Bool.and_eq_true, Bool.not_eq_true', not_and, Bool.not_eq_false]
    intro hc
    exact hcommit hc

/-- A registration hands the key on. -/
theorem handle_registering {s : Situation} {inner : Segment} {event : KeyEvent}
    (h : s.PassesTo inner event) (key : ConversionKey) (origin : Origin) (text : Text) :
    s.handle (.registering key origin text inner) event
      = within key origin text (s.nested.handle inner event) := by
  rcases handle_registering_cases h.1 key origin text inner with
    ⟨tail, outcome, rfl, hcommand, -⟩ | he
  · rw [registrationCommand?_eq_none h] at hcommand
    exact nomatch hcommand
  · exact he

/-- **A key reaches the segment through all registrations**, and what the segment commits
goes to the word of the innermost one. -/
theorem handle_inside {s : Situation} {segment : Segment} {event : KeyEvent}
    (h : s.PassesTo segment event) (outer : List Registration) (r : Registration) :
    s.handle (segment.inside (outer ++ [r])) event =
      let outcome := (s.deeper (outer.length + 1)).handle segment event
      { outcome with
        segment := outcome.segment.inside (outer ++ [r.spell outcome.committed])
        committed := [] } := by
  induction outer generalizing s with
  | nil => exact handle_registering h r.key r.origin r.text
  | cons first outer ih =>
    -- inside a registration no key confirms or deletes from outside
    have hpass : s.PassesTo (segment.inside (outer ++ [r])) event := by
      refine ⟨h.1, ?_⟩
      cases outer <;> trivial
    have hih := ih (s := s.nested) h
    show s.handle (.registering first.key first.origin first.text
      (segment.inside (outer ++ [r]))) event = _
    rw [handle_registering hpass, hih]
    rw [nested_deeper]
    simp only [within, List.append_nil]
    rfl

/-- At any depth a key does to the dictionaries and to the input mode what it does there. -/
theorem handle_of_within? {s : Situation} {depth : Nat} {segment part : Segment}
    {event : KeyEvent} (hpart : segment.within? depth = some part)
    (hpass : s.PassesTo part event) :
    (s.handle segment event).shelf = ((s.deeper depth).handle part event).shelf ∧
      (s.handle segment event).mode = ((s.deeper depth).handle part event).mode := by
  obtain ⟨registrations, rfl, rfl⟩ := Segment.exists_inside_of_within? hpart
  rcases List.eq_nil_or_concat registrations with rfl | ⟨outer, r, rfl⟩
  · exact ⟨rfl, rfl⟩
  · rw [List.concat_eq_append, handle_inside hpass outer r, List.length_append]
    exact ⟨rfl, rfl⟩

/-- **What a key leaves at a depth** is what the segment there leads to, unless that is typed
directly. -/
theorem within?_handle {s : Situation} {event : KeyEvent} (hcancel : s.binds .cancel event = false)
    {depth : Nat} {segment part : Segment} (hpart : segment.within? depth = some part)
    (hdirect : ∀ tail, part ≠ .direct tail) :
    (s.handle segment event).segment.within? depth
      = some ((s.deeper depth).handle part event).segment := by
  induction depth generalizing s segment with
  | zero =>
    obtain rfl := Option.some.inj hpart
    rfl
  | succ depth ih =>
    cases segment with
    | registering key origin text inner =>
      have hinner : inner.within? depth = some part := hpart
      -- what is typed directly holds nothing else, so the key is handed on
      have hpass : s.PassesTo inner event := by
        refine ⟨hcancel, ?_⟩
        cases inner with
        | direct tail =>
          cases depth with
          | zero => exact absurd (Option.some.inj hinner).symm (hdirect tail)
          | succ depth => exact nomatch hinner
        | _ => trivial
      rw [handle_registering hpass, ← nested_deeper]
      exact ih (s := s.nested) hcancel hinner
    | _ => exact nomatch hpart

end Situation

namespace Session

/-- A key that does not cancel leads the segment at a depth to what it handles it to there. -/
theorem within?_press (session : Session) {event : KeyEvent} (hpress : event.isRelease = false)
    (hcancel : session.situation.binds .cancel event = false) {depth : Nat} {part : Segment}
    (hpart : session.context.segment.within? depth = some part)
    (hdirect : ∀ tail, part ≠ .direct tail) :
    (session.press event).context.segment.within? depth
      = some ((session.situation.deeper depth).handle part event).segment := by
  rw [press_of_not_release session hpress]
  exact Situation.within?_handle hcancel hpart hdirect

end Session

end KanaKanji

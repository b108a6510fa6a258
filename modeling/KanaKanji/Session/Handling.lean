/-
Handling: any key in any segment.

`Situation.handle` gives a key to the segment that it is for.  Cancelling drops whatever is
going on, registrations included.  During a registration the keys go to the inner segment,
whose commits become the text of the word; while that segment is idle, committing confirms
the registration and deleting takes from the text.

* `Situation.handle_registering_cases`: a registration takes a key for itself or hands it on;
* `Situation.handle_induction`: what holds of each handler holds of handling.
-/
import KanaKanji.Session.Choosing

namespace KanaKanji

namespace Situation

/-- Confirm a registration: the word is registered and committed.  Without a word the
reading is edited again. -/
def confirm (s : Situation) (key : ConversionKey) (origin : Origin) (word : Text) : Outcome :=
  if word.isEmpty then s.moves (.editing key origin)
  else
    let entry : Entry := { surface := word }
    { s.commits .idle (Candidate.output ⟨key, entry⟩) with
      shelf := s.registered key.headword entry }

/-- The key switches a Latin mode back to hiragana. -/
def leavesLatin (s : Situation) (event : KeyEvent) : Bool :=
  s.mode.isLatin && s.binds .hiraganaMode event

/-- What a key does to a registration itself while its inner segment is typed directly. -/
def registrationCommand? (s : Situation) (key : ConversionKey) (origin : Origin) (text tail : Text)
    (event : KeyEvent) : Option Outcome :=
  if s.binds .commit event && !s.leavesLatin event then
    some (s.confirm key origin (text ++ s.flushed tail))
  else if s.binds .delete event && tail.isEmpty then
    some (s.moves (.registering key origin text.dropLast (.direct tail)))
  else none

/-- What the inner segment of a registration does, as the registration sees it. -/
def within (key : ConversionKey) (origin : Origin) (text : Text) (inner : Outcome) : Outcome :=
  { inner with
    segment := .registering key origin (text ++ inner.committed) inner.segment
    committed := [] }

/-- A key in a segment. -/
def handle (s : Situation) : Segment → KeyEvent → Outcome
  | .direct tail, event => s.direct tail event
  | .composing b, event =>
    if s.binds .cancel event then s.moves .idle else s.compose b event
  | .abbreviation letters, event =>
    if s.binds .cancel event then s.moves .idle else s.abbreviate letters event
  | .selecting selection, event =>
    if s.binds .cancel event then s.moves .idle else s.select selection event
  | .completing selection, event =>
    if s.binds .cancel event then s.moves .idle else s.complete selection event
  | .registering key origin text inner, event =>
    if s.binds .cancel event then s.moves .idle
    else
      let command? := match inner with
        | .direct tail => s.registrationCommand? key origin text tail event
        | _ => none
      match command? with
      | some outcome => outcome
      | none => within key origin text (s.nested.handle inner event)

/-! ### What handling comes to -/

section

variable {s : Situation} {event : KeyEvent}

/-- Cancelling drops whatever is going on, but what is typed directly. -/
theorem handle_of_cancel {segment : Segment} (h : s.binds .cancel event = true)
    (hne : ∀ tail, segment ≠ .direct tail) : s.handle segment event = s.moves .idle := by
  cases segment with
  | direct tail => exact absurd rfl (hne tail)
  | _ =>
    unfold handle
    exact if_pos h

variable (h : s.binds .cancel event = false)
include h

theorem handle_composing (b : Buffer) :
    s.handle (.composing b) event = s.compose b event := by
  simp [handle, h]

theorem handle_abbreviation (letters : Text) :
    s.handle (.abbreviation letters) event = s.abbreviate letters event := by
  simp [handle, h]

theorem handle_selecting (selection : Selection) :
    s.handle (.selecting selection) event = s.select selection event := by
  simp [handle, h]

theorem handle_completing (selection : Selection) :
    s.handle (.completing selection) event = s.complete selection event := by
  simp [handle, h]

/-- A registration takes the key for itself while the segment inside is typed directly, or
hands it on. -/
theorem handle_registering_cases (key : ConversionKey) (origin : Origin) (text : Text)
    (inner : Segment) :
    (∃ tail outcome, inner = .direct tail ∧
        s.registrationCommand? key origin text tail event = some outcome ∧
        s.handle (.registering key origin text inner) event = outcome) ∨
      s.handle (.registering key origin text inner) event
        = within key origin text (s.nested.handle inner event) := by
  unfold handle
  rw [h, if_neg Bool.false_ne_true]
  cases inner with
  | direct tail =>
    dsimp only
    cases ho : s.registrationCommand? key origin text tail event with
    | some outcome => exact Or.inl ⟨tail, outcome, rfl, ho, rfl⟩
    | none => exact Or.inr rfl
  | _ => exact Or.inr rfl

end

/-- What holds of each handler, and goes into registrations, holds of handling. -/
theorem handle_induction {P : Situation → Segment → Outcome → Prop} (event : KeyEvent)
    (cancelled : ∀ s segment, s.binds .cancel event = true → (∀ tail, segment ≠ .direct tail) →
      P s segment (s.moves .idle))
    (direct : ∀ s tail, P s (.direct tail) (s.direct tail event))
    (composing : ∀ s b, s.binds .cancel event = false →
      P s (.composing b) (s.compose b event))
    (abbreviation : ∀ s letters, s.binds .cancel event = false →
      P s (.abbreviation letters) (s.abbreviate letters event))
    (selecting : ∀ s selection, s.binds .cancel event = false →
      P s (.selecting selection) (s.select selection event))
    (completing : ∀ s selection, s.binds .cancel event = false →
      P s (.completing selection) (s.complete selection event))
    (command : ∀ s key origin text tail outcome, s.binds .cancel event = false →
      s.registrationCommand? key origin text tail event = some outcome →
      P s (.registering key origin text (.direct tail)) outcome)
    (inside : ∀ s key origin text inner, s.binds .cancel event = false →
      P s.nested inner (s.nested.handle inner event) →
      P s (.registering key origin text inner)
        (within key origin text (s.nested.handle inner event)))
    (s : Situation) (segment : Segment) : P s segment (s.handle segment event) := by
  have hdrop : ∀ s segment, s.binds .cancel event = true →
      (∀ tail, segment ≠ .direct tail) → P s segment (s.handle segment event) := by
    intro s segment hc hne
    rw [handle_of_cancel hc hne]
    exact cancelled s segment hc hne
  induction segment generalizing s with
  | direct tail => exact direct s tail
  | composing b =>
    cases hc : s.binds .cancel event with
    | true => exact hdrop s _ hc nofun
    | false =>
      rw [handle_composing hc]
      exact composing s b hc
  | abbreviation letters =>
    cases hc : s.binds .cancel event with
    | true => exact hdrop s _ hc nofun
    | false =>
      rw [handle_abbreviation hc]
      exact abbreviation s letters hc
  | selecting selection =>
    cases hc : s.binds .cancel event with
    | true => exact hdrop s _ hc nofun
    | false =>
      rw [handle_selecting hc]
      exact selecting s selection hc
  | completing selection =>
    cases hc : s.binds .cancel event with
    | true => exact hdrop s _ hc nofun
    | false =>
      rw [handle_completing hc]
      exact completing s selection hc
  | registering key origin text inner ih =>
    cases hc : s.binds .cancel event with
    | true => exact hdrop s _ hc nofun
    | false =>
      rcases handle_registering_cases hc key origin text inner with
        ⟨tail, outcome, rfl, hcommand, he⟩ | he
      · rw [he]
        exact command s key origin text tail outcome hc hcommand
      · rw [he]
        exact inside s key origin text inner hc (ih s.nested)

end Situation

end KanaKanji

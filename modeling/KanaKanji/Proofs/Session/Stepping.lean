/-
Stepping through the candidates.

Candidates are shown for a reading that is converted and for one that is completed (`Choice`).  In
both a command steps forward and another one back, and the list is a ring: behind the last comes
the first.

* `Selection.step_step`: steps add up, whatever their direction, so that only their sum counts;
* `Situation.handle_of_steps`: at any depth of registrations a key that steps turns the ring by one
  and does nothing else;
* `Session.pressAll_of_steps`: any number of keys turn it by the sum of what each of them does;
* `Session.stepping_cyclic`: so the place is known from how many keys step forward and how many
  back, and nothing but the place has changed.

Commands may share keys.  A key that is bound to both commands steps forward, which is looked at
first.
-/
import KanaKanji.Proofs.Session.Registration

namespace KanaKanji

/-! ### The ring of candidates -/

namespace Selection

/-- Selections are told apart by what is chosen for, the candidates and the place. -/
theorem ext_index {s t : Selection} (hkey : s.key = t.key) (horigin : s.origin = t.origin)
    (hcandidates : s.candidates = t.candidates) (hindex : s.index = t.index) : s = t := by
  obtain ⟨key, origin, candidates, index, hlt⟩ := s
  obtain rfl : key = t.key := hkey
  obtain rfl : origin = t.origin := horigin
  obtain rfl : candidates = t.candidates := hcandidates
  obtain rfl : index = t.index := hindex
  rfl

theorem index_step (s : Selection) (steps : Int) :
    ((s.step steps).index : Int) = (s.index + steps) % s.candidates.length := by
  have hpos := s.length_pos
  exact Int.toNat_of_nonneg (Int.emod_nonneg _ (by omega))

/-- Steps add up. -/
theorem step_step (s : Selection) (first second : Int) :
    (s.step first).step second = s.step (first + second) := by
  refine ext_index rfl rfl rfl ?_
  have hindex : (((s.step first).step second).index : Int)
      = (s.step (first + second)).index := by
    rw [index_step, index_step, index_step]
    show ((s.index + first) % s.candidates.length + second) % s.candidates.length = _
    rw [Int.emod_add_emod, Int.add_assoc]
  exact_mod_cast hindex

/-- Only whole rounds lead back to where they started. -/
theorem step_eq_self_iff (s : Selection) (steps : Int) :
    s.step steps = s ↔ (s.candidates.length : Int) ∣ steps := by
  have hplace : (s.index : Int) % s.candidates.length = s.index :=
    Int.emod_eq_of_lt (by omega) (by exact_mod_cast s.index_lt)
  have hindex : s.step steps = s ↔ (s.index + steps) % s.candidates.length = s.index := by
    rw [← index_step]
    constructor
    · intro h
      rw [h]
    · intro h
      exact ext_index rfl rfl rfl (by exact_mod_cast h)
  rw [hindex]
  constructor
  · intro h
    have hsub := Int.emod_eq_emod_iff_emod_sub_eq_zero.mp (h.trans hplace.symm)
    rw [show s.index + steps - s.index = steps by omega] at hsub
    exact Int.dvd_of_emod_eq_zero hsub
  · rintro ⟨rounds, rfl⟩
    rw [Int.add_mul_emod_self_left, hplace]

end Selection

/-! ### Keys that step -/

/-- What the candidates are shown for. -/
inductive Choice
  | conversion
  | completion
  deriving DecidableEq, Repr

namespace Choice

/-- The segment in which a candidate is chosen. -/
def segment : Choice → Selection → Segment
  | conversion => .selecting
  | completion => .completing

/-- The command that steps forward. -/
def forward : Choice → Command
  | conversion => .nextCandidate
  | completion => .complete

/-- The command that steps back. -/
def back : Choice → Command
  | conversion => .previousCandidate
  | completion => .previousCompletion

theorem segment_injective {choice : Choice} {s t : Selection}
    (h : choice.segment s = choice.segment t) : s = t := by
  cases choice with
  | conversion => exact Segment.selecting.inj h
  | completion => exact Segment.completing.inj h

end Choice

namespace Keymap

/-- The key steps: it is a press bound to one of the two commands, and does not cancel. -/
structure Steps (keymap : Keymap) (choice : Choice) (event : KeyEvent) : Prop where
  press : event.isRelease = false
  free : keymap.binds .cancel event = false
  bound : keymap.binds choice.forward event = true ∨ keymap.binds choice.back event = true

instance (keymap : Keymap) (choice : Choice) (event : KeyEvent) :
    Decidable (keymap.Steps choice event) :=
  decidable_of_iff (event.isRelease = false ∧ keymap.binds .cancel event = false ∧
      (keymap.binds choice.forward event = true ∨ keymap.binds choice.back event = true))
    ⟨fun h => ⟨h.1, h.2.1, h.2.2⟩, fun h => ⟨h.press, h.free, h.bound⟩⟩

/-- How far a key goes that steps: one forward, or one back. -/
def pace (keymap : Keymap) (choice : Choice) (event : KeyEvent) : Int :=
  if keymap.binds choice.forward event then 1 else -1

/-- How far keys go together: those that step forward, less those that only step back. -/
def distance (keymap : Keymap) (choice : Choice) (events : List KeyEvent) : Int :=
  events.countP (keymap.binds choice.forward) -
    events.countP fun event => keymap.binds choice.back event && !keymap.binds choice.forward event

variable {keymap : Keymap} {choice : Choice} {event : KeyEvent}

theorem pace_of_forward (h : keymap.binds choice.forward event = true) :
    keymap.pace choice event = 1 :=
  if_pos h

theorem pace_of_not_forward (h : ¬ keymap.binds choice.forward event = true) :
    keymap.pace choice event = -1 :=
  if_neg h

theorem Steps.distance_cons (h : keymap.Steps choice event) (events : List KeyEvent) :
    keymap.distance choice (event :: events) =
      keymap.pace choice event + keymap.distance choice events := by
  unfold distance
  by_cases hforward : keymap.binds choice.forward event = true
  · rw [pace_of_forward hforward, List.countP_cons_of_pos hforward,
      List.countP_cons_of_neg (by simp [hforward])]
    omega
  · have hback : keymap.binds choice.back event = true := h.bound.resolve_left hforward
    rw [pace_of_not_forward hforward, List.countP_cons_of_neg hforward,
      List.countP_cons_of_pos (by simp [hforward, hback])]
    omega

end Keymap

namespace Situation

variable {s : Situation} {choice : Choice} {event : KeyEvent}

/-- Where the candidates are shown, a key that steps moves to the next or the previous one. -/
theorem handle_choice_of_steps (h : s.settings.keymap.Steps choice event)
    (selection : Selection) :
    s.handle (choice.segment selection) event =
      s.moves (choice.segment (selection.step (s.settings.keymap.pace choice event))) := by
  have hcancel : s.binds .cancel event = false := h.free
  cases choice with
  | conversion =>
    show s.handle (.selecting selection) event = _
    rw [handle_selecting hcancel, select]
    by_cases hforward : s.binds .nextCandidate event = true
    · have hpace : s.settings.keymap.pace .conversion event = 1 :=
        Keymap.pace_of_forward hforward
      rw [if_pos hforward, hpace]
      rfl
    · have hback : s.binds .previousCandidate event = true := h.bound.resolve_left hforward
      have hpace : s.settings.keymap.pace .conversion event = -1 :=
        Keymap.pace_of_not_forward hforward
      rw [if_neg hforward, if_pos hback, hpace]
      rfl
  | completion =>
    show s.handle (.completing selection) event = _
    rw [handle_completing hcancel, complete]
    by_cases hforward : s.binds .complete event = true
    · have hpace : s.settings.keymap.pace .completion event = 1 :=
        Keymap.pace_of_forward hforward
      rw [if_pos hforward, hpace]
      rfl
    · have hback : s.binds .previousCompletion event = true := h.bound.resolve_left hforward
      have hpace : s.settings.keymap.pace .completion event = -1 :=
        Keymap.pace_of_not_forward hforward
      rw [if_neg hforward, if_pos hback, hpace]
      rfl

/-- **At any depth a key that steps does just that**: the registrations around the candidates hand
it on, and nothing is committed to their words. -/
theorem handle_of_steps (h : s.settings.keymap.Steps choice event) (outer : List Registration)
    (selection : Selection) :
    s.handle ((choice.segment selection).inside outer) event =
      s.moves ((choice.segment
        (selection.step (s.settings.keymap.pace choice event))).inside outer) := by
  induction outer generalizing s with
  | nil => exact handle_choice_of_steps h selection
  | cons r outer ih =>
    have hpass : s.PassesTo ((choice.segment selection).inside outer) event := by
      refine ⟨h.free, ?_⟩
      cases outer <;> cases choice <;> trivial
    have hinner := ih (s := s.nested) h
    show s.handle (.registering r.key r.origin r.text ((choice.segment selection).inside outer))
      event = _
    rw [handle_registering hpass, hinner]
    show (⟨true, .registering r.key r.origin (r.text ++ []) _, [], s.mode, s.shelf⟩ : Outcome) = _
    rw [List.append_nil]
    rfl

end Situation

/-! ### Sessions -/

namespace Session

variable {session : Session} {choice : Choice} {outer : List Registration} {selection : Selection}
  {event : KeyEvent} {events : List KeyEvent}

/-- The session in another segment. -/
def withSegment (session : Session) (segment : Segment) : Session :=
  { session with context := { session.context with segment := segment } }

theorem press_of_steps
    (hsegment : session.context.segment = (choice.segment selection).inside outer)
    (h : session.context.settings.keymap.Steps choice event) :
    session.consumes event = true ∧
      session.press event = session.withSegment ((choice.segment (selection.step
        (session.context.settings.keymap.pace choice event))).inside outer) := by
  have hhandle := Situation.handle_of_steps (s := session.situation) h outer selection
  rw [← hsegment] at hhandle
  rw [consumes_of_not_release session h.press, press_of_not_release session h.press, hhandle]
  refine ⟨rfl, ?_⟩
  show (⟨{ session.context with
    segment := _, output := session.context.output ++ [] }, session.shelf⟩ : Session) = _
  rw [List.append_nil]
  rfl

/-- **Keys that step are consumed, and turn the ring by the sum of their steps.** -/
theorem pressAll_of_steps
    (hsegment : session.context.segment = (choice.segment selection).inside outer)
    (h : ∀ event ∈ events, session.context.settings.keymap.Steps choice event) :
    (∀ consumed ∈ session.answers events, consumed = true) ∧
      session.pressAll events = session.withSegment ((choice.segment (selection.step
        (session.context.settings.keymap.distance choice events))).inside outer) := by
  induction events generalizing session selection with
  | nil =>
    refine ⟨fun consumed hmem => absurd hmem List.not_mem_nil, ?_⟩
    have hstay : selection.step 0 = selection :=
      (selection.step_eq_self_iff 0).mpr (Int.dvd_zero _)
    show session = session.withSegment ((choice.segment (selection.step 0)).inside outer)
    rw [hstay, ← hsegment]
    rfl
  | cons event events ih =>
    obtain ⟨hevent, hevents⟩ := List.forall_mem_cons.mp h
    obtain ⟨hconsumes, hpress⟩ := press_of_steps hsegment hevent
    -- the keymap is the one it was, so the other keys step as they did
    have hsettings : (session.press event).context.settings = session.context.settings := by
      rw [hpress]
      rfl
    have hturned := congrArg (fun other : Session => other.context.segment) hpress
    rw [← hsettings] at hevents
    obtain ⟨hanswers, hrest⟩ := ih hturned hevents
    refine ⟨List.forall_mem_cons.mpr ⟨hconsumes, hanswers⟩, ?_⟩
    rw [pressAll_cons, hrest, hsettings, hevent.distance_cons, hpress, Selection.step_step]
    rfl

/-- **Stepping through candidates is cyclic and inert.**  Take a session in which candidates are
shown for a conversion or for a completion, at any depth of registrations, and keys of which each
steps forward or back.  Every key is consumed.  Afterwards the same candidates are shown for the
same key, inside the same registrations, and all else of the session and the dictionaries is as
before; the place is the old one and the keys that step forward less those that step back, counted
around the list.  So the session is as before exactly when these make whole rounds. -/
theorem stepping_cyclic (session : Session) (choice : Choice) {selection : Selection}
    (hchoosing : session.context.segment.innermost = choice.segment selection)
    {keys : List KeyEvent}
    (hkeys : ∀ key ∈ keys, session.context.settings.keymap.Steps choice key) :
    let keymap := session.context.settings.keymap
    let forward : Int := keys.countP (keymap.binds choice.forward)
    let back : Int := keys.countP fun key =>
      keymap.binds choice.back key && !keymap.binds choice.forward key
    let after := session.pressAll keys
    (∀ consumed ∈ session.answers keys, consumed = true) ∧
      (∃ outer last, session.context.segment = (choice.segment selection).inside outer ∧
        after = session.withSegment ((choice.segment last).inside outer) ∧
        last.key = selection.key ∧ last.origin = selection.origin ∧
        last.candidates = selection.candidates ∧
        last.index = (selection.index + forward - back) % selection.candidates.length) ∧
      (after = session ↔ (selection.candidates.length : Int) ∣ forward - back) := by
  intro keymap forward back after
  obtain ⟨depth, hdepth⟩ := Segment.exists_within?_innermost session.context.segment
  rw [hchoosing] at hdepth
  obtain ⟨outer, -, hsegment⟩ := Segment.exists_inside_of_within? hdepth
  obtain ⟨hanswers, hafter⟩ := pressAll_of_steps hsegment hkeys
  have hafter : after = session.withSegment
      ((choice.segment (selection.step (forward - back))).inside outer) := hafter
  refine ⟨hanswers, ⟨outer, selection.step (forward - back), hsegment, hafter, rfl, rfl, rfl, ?_⟩,
    ?_⟩
  · rw [Selection.index_step, Int.add_sub_assoc]
  · rw [← Selection.step_eq_self_iff, hafter]
    constructor
    · intro h
      have hinside := congrArg (fun other : Session => other.context.segment) h
      have hinside : (choice.segment (selection.step (forward - back))).inside outer
          = (choice.segment selection).inside outer := hinside.trans hsegment
      have hpart := congrArg (Segment.within? outer.length) hinside
      rw [Segment.within?_inside, Segment.within?_inside] at hpart
      exact Choice.segment_injective (Option.some.inj hpart)
    · intro h
      rw [h, ← hsegment]
      rfl

/-- か inside a registration, with three words to choose from.  The space is bound to both commands,
so that it steps forward; with one of it and three of x the second word is shown. -/
theorem stepping_cyclic_nested :
    let entries : List Entry := ["蚊", "科", "可"].map fun word => { surface := word.toList }
    let key : ConversionKey := { yomi := "か".toList }
    let selection : Selection := ⟨key, .kana, entries.map (Candidate.mk key), 0, by decide⟩
    let keymap := Keymap.builtin.bind .previousCandidate (KeyEvent.ofChar ' ')
    let words := Dictionary.fixed Dictionary.systemName [("か".toList, entries)]
    let session := (start { Settings.builtin with keymap := keymap } RomajiTable.builtin [0]
      [words]).pressAll ("Ki Ka ".toList.map KeyEvent.ofChar)
    let keys := "xx x".toList.map KeyEvent.ofChar
    session.context.segment.innermost = Choice.conversion.segment selection ∧
      (∀ key ∈ keys, session.context.settings.keymap.Steps .conversion key) ∧
      (∀ consumed ∈ session.answers keys, consumed = true) ∧
      (∃ outer last, session.context.segment = (Segment.selecting selection).inside outer ∧
        session.pressAll keys = session.withSegment ((Segment.selecting last).inside outer) ∧
        last.candidates = selection.candidates ∧ last.index = 1) ∧
      session.pressAll keys ≠ session := by
  intro entries key selection keymap words session keys
  have hchoosing : session.context.segment.innermost = Choice.conversion.segment selection := by
    decide +kernel
  have hkeys : ∀ key ∈ keys, session.context.settings.keymap.Steps .conversion key := by
    decide +kernel
  have hforward : keys.countP (session.context.settings.keymap.binds .nextCandidate) = 1 := by
    decide +kernel
  have hback : (keys.countP fun key =>
      session.context.settings.keymap.binds .previousCandidate key &&
        !session.context.settings.keymap.binds .nextCandidate key) = 3 := by
    decide +kernel
  obtain ⟨hanswers, ⟨outer, last, hsegment, hafter, -, -, hcandidates, hindex⟩, hrounds⟩ :=
    stepping_cyclic session .conversion hchoosing hkeys
  simp only [Choice.forward, Choice.back, hforward, hback] at hindex hrounds
  refine ⟨hchoosing, hkeys, hanswers, ⟨outer, last, hsegment, hafter, hcandidates, ?_⟩, ?_⟩
  · have hone : (last.index : Int) = 1 := hindex
    exact_mod_cast hone
  · rw [Ne, hrounds]
    decide

end Session

end KanaKanji

/-
A registration is a session of its own.

The word of a registration is spelled by a segment inside it.  As long as the keys are for
that segment, it goes through the same states as the segment of a fresh context over equal
dictionaries (`Session.apart`), in which so many registrations fewer may be open, and the
word of the registration is what the fresh context has committed:

* `Session.mirrors_press`: one key;
* `Session.answers_apart`: any number of keys, with the answers to them.

Two sessions that keys keep related answer them in the same way (`Session.related_runs`).
-/
import KanaKanji.Proofs.Session.Nesting
import KanaKanji.Romaji.Builtin

namespace KanaKanji

namespace Session

/-! ### The two sessions -/

/-- A fresh context over the dictionaries of a session, with its table, layers and input
mode, in which so many registrations fewer may be open. -/
def apart (session : Session) (depth : Nat) : Session :=
  (start { session.context.settings with
      maxRegistrationDepth := session.context.settings.maxRegistrationDepth - depth }
    session.context.table session.context.layers session.shelf).serve
    (.setMode session.context.mode)

/-- Whether the session consumes each of the keys. -/
def answers (session : Session) : List KeyEvent → List Bool
  | [] => []
  | event :: events => session.consumes event :: (session.press event).answers events

/-- Two related sessions answer keys in the same way and stay related, when each key keeps them so
under a condition on the keys that are left. -/
theorem related_runs {R : Session → Session → Prop} {C : Session → List KeyEvent → Prop}
    (hstep : ∀ {s t event events}, R s t → C s (event :: events) →
      s.consumes event = t.consumes event ∧ R (s.press event) (t.press event) ∧
        C (s.press event) events)
    {s t : Session} (h : R s t) {events : List KeyEvent} (hevents : C s events) :
    s.answers events = t.answers events ∧
      ∀ done, done <+: events → R (s.pressAll done) (t.pressAll done) := by
  induction events generalizing s t with
  | nil =>
    refine ⟨rfl, fun done hdone => ?_⟩
    rw [List.prefix_nil.mp hdone]
    exact h
  | cons event events ih =>
    obtain ⟨hconsumes, hnext, hrest⟩ := hstep h hevents
    obtain ⟨hanswers, hall⟩ := ih hnext hrest
    -- the first key is answered alike, and the rest by induction
    refine ⟨?_, fun done hdone => ?_⟩
    · rw [answers, answers, hconsumes, hanswers]
    · cases done with
      | nil => exact h
      | cons first done =>
        obtain ⟨rfl, hbehind⟩ := List.cons_prefix_cons.mp hdone
        exact hall done hbehind

/-- One after the other the keys are presses for the segment inside the innermost of so many
registrations. -/
def Spells (depth : Nat) (session : Session) : List KeyEvent → Prop
  | [] => True
  | event :: events =>
    event.isRelease = false ∧
      (∀ inner ∈ session.context.segment.within? depth,
        session.situation.PassesTo inner event) ∧
      Spells depth (session.press event) events

instance instDecidableSpells (depth : Nat) : (session : Session) → (events : List KeyEvent) →
    Decidable (Spells depth session events)
  | _, [] => .isTrue trivial
  | session, event :: events =>
    have := instDecidableSpells depth (session.press event) events
    inferInstanceAs (Decidable (_ ∧ _ ∧ _))

/-- The registration for a key, inside others, has the state of a session of its own: the
same segment, the word that the session has committed, and equal dictionaries. -/
structure Mirrors (outer : List Registration) (key : ConversionKey) (origin : Origin)
    (session word : Session) : Prop where
  segment : session.context.segment =
    word.context.segment.inside (outer ++ [⟨key, origin, word.context.output⟩])
  mode : session.context.mode = word.context.mode
  shelf : session.shelf = word.shelf
  table : session.context.table = word.context.table
  layers : session.context.layers = word.context.layers
  settings : word.context.settings = { session.context.settings with
    maxRegistrationDepth :=
      session.context.settings.maxRegistrationDepth - (outer.length + 1) }

/-! ### One key -/

variable {outer : List Registration} {key : ConversionKey} {origin : Origin}
  {session word : Session}

/-- Inside the registration and apart from it there is the same room, so that the key does
the same. -/
theorem Mirrors.handle (h : Mirrors outer key origin session word) (event : KeyEvent) :
    word.situation.handle word.context.segment event =
      (session.situation.deeper (outer.length + 1)).handle word.context.segment event := by
  have hsituation : word.situation =
      (session.situation.deeper (outer.length + 1)).withLimit
        (session.context.settings.maxRegistrationDepth - (outer.length + 1)) 0 := by
    simp only [situation, Context.situation, Situation.deeper, Situation.withLimit, h.settings,
      h.table, h.layers, h.mode, h.shelf]
  rw [hsituation]
  -- the limit is lower by just the registrations that are not around it
  refine Situation.handle_withLimit _ ?_ _ event
  show session.context.settings.maxRegistrationDepth - (outer.length + 1) - 0
    = session.context.settings.maxRegistrationDepth - (0 + (outer.length + 1))
  omega

/-- **A key that is for the segment inside does the same on both sides.** -/
theorem mirrors_press (h : Mirrors outer key origin session word) {event : KeyEvent}
    (hrelease : event.isRelease = false)
    (hpass : session.situation.PassesTo word.context.segment event) :
    session.consumes event = word.consumes event ∧
      Mirrors outer key origin (session.press event) (word.press event) := by
  have hhandle := Situation.handle_inside hpass outer ⟨key, origin, word.context.output⟩
  rw [← h.segment, ← h.handle event] at hhandle
  rw [consumes_of_not_release session hrelease, consumes_of_not_release word hrelease,
    press_of_not_release session hrelease, press_of_not_release word hrelease, hhandle]
  exact ⟨rfl, rfl, rfl, rfl, h.table, h.layers, h.settings⟩

/-- What is inside the registrations is the segment of the session apart. -/
theorem Mirrors.passesTo (h : Mirrors outer key origin session word) {event : KeyEvent}
    {events : List KeyEvent} (hspells : Spells (outer.length + 1) session (event :: events)) :
    session.situation.PassesTo word.context.segment event := by
  refine hspells.2.1 _ ?_
  have hwithin := Segment.within?_inside (outer ++ [⟨key, origin, word.context.output⟩])
    word.context.segment
  rw [← h.segment, List.length_append] at hwithin
  exact hwithin

/-! ### Any number of keys -/

theorem Mirrors.pressAll {session word : Session} (h : Mirrors outer key origin session word)
    {events : List KeyEvent} (hspells : Spells (outer.length + 1) session events) :
    session.answers events = word.answers events ∧
      ∀ done, done <+: events →
        Mirrors outer key origin (session.pressAll done) (word.pressAll done) := by
  refine related_runs (fun hmirrors hkeys => ?_) h hspells
  obtain ⟨hconsumes, hnext⟩ := mirrors_press hmirrors hkeys.1 (hmirrors.passesTo hkeys)
  exact ⟨hconsumes, hnext, hkeys.2.2⟩

/-- A registration that has just been opened mirrors a fresh context. -/
theorem mirrors_apart
    (h : session.context.segment = Segment.idle.inside (outer ++ [⟨key, origin, []⟩])) :
    Mirrors outer key origin session (session.apart (outer.length + 1)) :=
  ⟨h, rfl, rfl, rfl, rfl, rfl⟩

/-- **A registration is a session of its own.**  From when it is opened, inside any number
of others, keys that are for the segment inside are answered as a fresh context answers them,
and after each of them both are in the same state. -/
theorem answers_apart (session : Session) (outer : List Registration) (key : ConversionKey)
    (origin : Origin) (events : List KeyEvent)
    (hopen : session.context.segment = Segment.idle.inside (outer ++ [⟨key, origin, []⟩]))
    (hspells : Spells (outer.length + 1) session events) :
    let word := session.apart (outer.length + 1)
    session.answers events = word.answers events ∧
      ∀ done, done <+: events →
        Mirrors outer key origin (session.pressAll done) (word.pressAll done) :=
  (mirrors_apart hopen).pressAll hspells

/-- The registration of き has been opened inside that of か. -/
def opened : Session :=
  (start Settings.builtin RomajiTable.builtin [0] [Dictionary.user Dictionary.userName []]).pressAll
    ("Ka Ki ".toList.map KeyEvent.ofChar)

/-- Typed romaji, one of them deleted; then a word that no dictionary lists, so that it is
spelled and registered first. -/
def wordKeys : List KeyEvent :=
  "kx".toList.map KeyEvent.ofChar ++ [⟨.named .backSpace, .none⟩] ++
    "aKaa ai".toList.map KeyEvent.ofChar ++ [⟨.named .enter, .none⟩, KeyEvent.ofChar 'n']

theorem answers_apart_opened :
    let outer : List Registration := [⟨{ yomi := "か".toList }, .kana, []⟩]
    let key : ConversionKey := { yomi := "き".toList }
    opened.context.segment = Segment.idle.inside (outer ++ [⟨key, .kana, []⟩]) ∧
      Spells 2 opened wordKeys ∧
      opened.answers wordKeys = (opened.apart 2).answers wordKeys ∧
      ∀ done, done <+: wordKeys →
        Mirrors outer key .kana (opened.pressAll done) ((opened.apart 2).pressAll done) := by
  intro outer key
  have hopen : opened.context.segment = Segment.idle.inside (outer ++ [⟨key, .kana, []⟩]) := by
    decide +kernel
  have hspells : Spells 2 opened wordKeys := by decide +kernel
  exact ⟨hopen, hspells, answers_apart opened outer key .kana wordKeys hopen hspells⟩

end Session

end KanaKanji

/-
Sessions and their runs.

A `Session` is a context together with the dictionaries on its shelf.  A host presses keys,
changes the input mode, resets, takes committed text, and writes to the dictionaries by
itself, through the layers of the context or at one place of the shelf; what other contexts
that share the dictionaries write are such writes too.  Each of these is a `Request`, and
`Session.run` serves them one after the other.

* `Session.run_invariant`: what every request preserves holds after every run;
* `Session.run_frame`: no request changes the settings, the table or the layers of a context.

Commands may share keys, so a key gives a command (`Keymap.Gives`) where none that is looked
at before has it too.
-/
import KanaKanji.Session.Context

namespace KanaKanji

/-- The event gives the command: it is a press bound to it, and to none of those that are
looked at before. -/
structure Keymap.Gives (keymap : Keymap) (before : List Command) (command : Command)
    (event : KeyEvent) : Prop where
  press : event.isRelease = false
  bound : keymap.binds command event = true
  free : ∀ other ∈ before, keymap.binds other event = false

instance (keymap : Keymap) (before : List Command) (command : Command) (event : KeyEvent) :
    Decidable (keymap.Gives before command event) :=
  decidable_of_iff (event.isRelease = false ∧ keymap.binds command event = true ∧
      ∀ other ∈ before, keymap.binds other event = false)
    ⟨fun h => ⟨h.1, h.2.1, h.2.2⟩, fun h => ⟨h.press, h.bound, h.free⟩⟩

/-- What a host asks of a session. -/
inductive Request
  | press (event : KeyEvent)
  | setMode (mode : InputMode)
  | reset
  | poll
  /-- Register with the first layer that can be written to. -/
  | register (reading : Text) (entry : Entry)
  /-- Purge from every layer that can be written to. -/
  | purge (reading surface : Text)
  | registerAt (place : Nat) (reading : Text) (entry : Entry)
  | purgeAt (place : Nat) (reading surface : Text)

/-- The shelf that an attempt to write leaves: a refused one leaves it alone. -/
def Shelf.afterWrite (shelf : Shelf) : Except DictionaryError (Bool × Shelf) → Shelf
  | .ok (_, written) => written
  | .error _ => shelf

/-- A context and the dictionaries that it shares. -/
structure Session where
  context : Context
  shelf : Shelf

namespace Session

/-- A fresh context over some dictionaries. -/
def start (settings : Settings) (table : RomajiTable) (layers : Layers) (shelf : Shelf) :
    Session :=
  ⟨Context.new settings table layers, shelf⟩

/-- What the next key finds. -/
def situation (session : Session) : Situation :=
  session.context.situation session.shelf

/-- The session after a key. -/
def press (session : Session) (event : KeyEvent) : Session :=
  let reaction := session.context.press session.shelf event
  ⟨reaction.context, reaction.shelf⟩

/-- Whether the session consumes a key. -/
def consumes (session : Session) (event : KeyEvent) : Bool :=
  (session.context.press session.shelf event).consumed

/-- The session after keys, one by one. -/
def pressAll (session : Session) (events : List KeyEvent) : Session :=
  events.foldl press session

/-- Serve a request. -/
def serve (session : Session) : Request → Session
  | .press event => session.press event
  | .setMode mode => { session with context := session.context.setMode mode }
  | .reset => { session with context := session.context.reset }
  | .poll => { session with context := session.context.poll.2 }
  | .register reading entry =>
    { session with
      shelf := session.shelf.afterWrite
        (session.shelf.register session.context.layers reading entry) }
  | .purge reading surface =>
    { session with shelf := (session.shelf.purge session.context.layers reading surface).2 }
  | .registerAt place reading entry =>
    { session with
      shelf := session.shelf.afterWrite (session.shelf.registerAt place reading entry) }
  | .purgeAt place reading surface =>
    { session with
      shelf := session.shelf.afterWrite (session.shelf.purgeAt place reading surface) }

/-- Serve requests one by one. -/
def run (session : Session) (requests : List Request) : Session :=
  requests.foldl serve session

/-! ### One step after the other -/

@[simp] theorem pressAll_nil (session : Session) : session.pressAll [] = session := rfl

@[simp] theorem pressAll_cons (session : Session) (event : KeyEvent) (events : List KeyEvent) :
    session.pressAll (event :: events) = (session.press event).pressAll events := rfl

theorem pressAll_append (session : Session) (first second : List KeyEvent) :
    session.pressAll (first ++ second) = (session.pressAll first).pressAll second :=
  List.foldl_append

@[simp] theorem run_nil (session : Session) : session.run [] = session := rfl

@[simp] theorem run_cons (session : Session) (request : Request) (requests : List Request) :
    session.run (request :: requests) = (session.serve request).run requests := rfl

/-- What every request preserves holds after every run. -/
theorem run_invariant {P : Session → Prop}
    (hstep : ∀ session request, P session → P (session.serve request)) {session : Session}
    (h : P session) (requests : List Request) : P (session.run requests) := by
  induction requests generalizing session with
  | nil => exact h
  | cons request requests ih => exact ih (hstep session request h)

/-! ### Keys -/

/-- A key that is no release is handled by the segment. -/
theorem press_of_not_release (session : Session) {event : KeyEvent}
    (h : event.isRelease = false) :
    session.press event =
      let outcome := session.situation.handle session.context.segment event
      ⟨{ session.context with
          mode := outcome.mode
          segment := outcome.segment
          output := session.context.output ++ outcome.committed }, outcome.shelf⟩ := by
  simp [press, Context.press, h, situation]

theorem consumes_of_not_release (session : Session) {event : KeyEvent}
    (h : event.isRelease = false) :
    session.consumes event =
      (session.situation.handle session.context.segment event).consumed := by
  simp [consumes, Context.press, h, situation]

/-- A release changes nothing. -/
theorem press_of_release (session : Session) {event : KeyEvent} (h : event.isRelease = true) :
    session.press event = session := by
  simp [press, Context.press, h]

/-! ### What no request changes -/

theorem serve_frame (session : Session) (request : Request) :
    (session.serve request).context.settings = session.context.settings ∧
      (session.serve request).context.table = session.context.table ∧
      (session.serve request).context.layers = session.context.layers := by
  cases request with
  | press event =>
    by_cases h : event.isRelease = true
    · rw [serve, press_of_release session h]
      exact ⟨rfl, rfl, rfl⟩
    · rw [serve, press_of_not_release session (by simpa using h)]
      exact ⟨rfl, rfl, rfl⟩
  | _ => exact ⟨rfl, rfl, rfl⟩

theorem run_frame (session : Session) (requests : List Request) :
    (session.run requests).context.settings = session.context.settings ∧
      (session.run requests).context.table = session.context.table ∧
      (session.run requests).context.layers = session.context.layers := by
  refine run_invariant (P := fun other =>
    other.context.settings = session.context.settings ∧
      other.context.table = session.context.table ∧
      other.context.layers = session.context.layers) ?_ ⟨rfl, rfl, rfl⟩ requests
  intro other request h
  obtain ⟨hs, ht, hl⟩ := serve_frame other request
  exact ⟨hs.trans h.1, ht.trans h.2.1, hl.trans h.2.2⟩

/-- Keys change no settings. -/
theorem settings_pressAll (session : Session) (events : List KeyEvent) :
    (session.pressAll events).context.settings = session.context.settings := by
  induction events generalizing session with
  | nil => rfl
  | cons event events ih =>
    rw [pressAll_cons, ih]
    exact (serve_frame session (.press event)).1

end Session

end KanaKanji

/-
What a key finds, and what it does.

A `Situation` is all that handling a key depends on besides the segment itself, and an
`Outcome` is all that it changes: the segment, the input mode, the dictionaries and the
text committed.  Handling a key is a function from the one to the other.
-/
import KanaKanji.Dictionary.Layered
import KanaKanji.Session.Segment
import KanaKanji.Settings.Basic

namespace KanaKanji

/-- What a key finds besides the segment. -/
structure Situation where
  settings : Settings
  table : RomajiTable
  layers : Layers
  /-- The registrations around the segment. -/
  depth : Nat
  mode : InputMode
  shelf : Shelf

/-- What a key does. -/
structure Outcome where
  /-- The key was of use here; the host leaves it alone. -/
  consumed : Bool
  segment : Segment
  committed : Text
  mode : InputMode
  shelf : Shelf

namespace Situation

variable (s : Situation)

/-- The event is bound to the command. -/
def binds (command : Command) (event : KeyEvent) : Bool :=
  s.settings.keymap.binds command event

/-- Kana in the form of the input mode. -/
def render (kana : Text) : Text :=
  s.mode.render kana

/-- A registration may be opened here. -/
def canRegister : Bool :=
  decide (s.depth < s.settings.maxRegistrationDepth)

/-- The dictionaries asked here. -/
def dictionaries : Layered :=
  s.shelf.select s.layers

/-- The situation of a segment inside a registration. -/
def nested : Situation :=
  { s with depth := s.depth + 1 }

/-! ### Simple outcomes -/

/-- The key leads to a segment and commits a text, and nothing else changes. -/
def commits (segment : Segment) (committed : Text) : Outcome :=
  ⟨true, segment, committed, s.mode, s.shelf⟩

/-- The key leads to a segment, and nothing else changes. -/
def moves (segment : Segment) : Outcome :=
  s.commits segment []

/-- The key is of no use here. -/
def ignores (segment : Segment) : Outcome :=
  ⟨false, segment, [], s.mode, s.shelf⟩

/-- The dictionaries after a registration.  One that is refused leaves them alone. -/
def registered (reading : Text) (entry : Entry) : Shelf :=
  match s.shelf.register s.layers reading entry with
  | .ok (_, shelf) => shelf
  | .error _ => s.shelf

end Situation

namespace Outcome

/-- The outcome with text before what it commits. -/
def after (outcome : Outcome) (committed : Text) : Outcome :=
  { outcome with committed := committed ++ outcome.committed }

/-- One outcome, then what follows from the situation it leaves. -/
def andThen (first : Outcome) (s : Situation) (follow : Situation → Outcome) : Outcome :=
  (follow { s with mode := first.mode, shelf := first.shelf }).after first.committed

end Outcome

/-! ### What simple outcomes are -/

namespace Situation

variable (s : Situation)

@[simp] theorem segment_commits (segment : Segment) (committed : Text) :
    (s.commits segment committed).segment = segment := rfl

@[simp] theorem segment_moves (segment : Segment) : (s.moves segment).segment = segment := rfl

@[simp] theorem segment_ignores (segment : Segment) :
    (s.ignores segment).segment = segment := rfl

@[simp] theorem consumed_commits (segment : Segment) (committed : Text) :
    (s.commits segment committed).consumed = true := rfl

@[simp] theorem consumed_moves (segment : Segment) : (s.moves segment).consumed = true := rfl

@[simp] theorem consumed_ignores (segment : Segment) :
    (s.ignores segment).consumed = false := rfl

end Situation

namespace Outcome

variable (outcome : Outcome)

@[simp] theorem segment_after (committed : Text) :
    (outcome.after committed).segment = outcome.segment := rfl

@[simp] theorem consumed_after (committed : Text) :
    (outcome.after committed).consumed = outcome.consumed := rfl

end Outcome

end KanaKanji

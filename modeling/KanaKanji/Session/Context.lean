/-
Contexts: input sessions of a host.

A context has its settings, romaji table and layers, an input mode, a segment, and the text
that it has committed and the host has not yet taken.  Dictionaries are shared, so handling
a key takes the shelf and answers a new one.
-/
import KanaKanji.Session.Handling

namespace KanaKanji

/-- An input session. -/
structure Context where
  settings : Settings
  table : RomajiTable
  layers : Layers
  mode : InputMode
  segment : Segment
  /-- Committed text that the host has not taken. -/
  output : Text

namespace Context

/-- A fresh session. -/
def new (settings : Settings) (table : RomajiTable) (layers : Layers) : Context where
  settings := settings
  table := table
  layers := layers
  mode := .hiragana
  segment := .idle
  output := []

/-- What a key finds. -/
def situation (context : Context) (shelf : Shelf) : Situation where
  settings := context.settings
  table := context.table
  layers := context.layers
  depth := 0
  mode := context.mode
  shelf := shelf

/-- What a session and its dictionaries become, and whether the key was consumed. -/
structure Reaction where
  consumed : Bool
  context : Context
  shelf : Shelf

/-- Handle a key.  A release changes nothing. -/
def press (context : Context) (shelf : Shelf) (event : KeyEvent) : Reaction :=
  if event.isRelease then ⟨false, context, shelf⟩
  else
    let outcome := (context.situation shelf).handle context.segment event
    { consumed := outcome.consumed
      context := { context with
        mode := outcome.mode
        segment := outcome.segment
        output := context.output ++ outcome.committed }
      shelf := outcome.shelf }

/-- The text that shows the work in progress. -/
def preedit (context : Context) : Text :=
  context.segment.preedit context.mode

/-- Take the committed text. -/
def poll (context : Context) : Text × Context :=
  (context.output, { context with output := [] })

/-- Drop whatever is going on.  Committed text stays. -/
def reset (context : Context) : Context :=
  { context with segment := .idle }

/-- Change the input mode. -/
def setMode (context : Context) (mode : InputMode) : Context :=
  { context with mode := mode }

end Context

end KanaKanji

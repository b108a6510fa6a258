/-
Keymaps: the keys of each command.

Several commands may share a key; which of them applies depends on the state the engine
is in.  `Keymap.binds` tells whether an event is bound to a command, up to what keymaps
compare of an event.
-/
import KanaKanji.Key.Event
import KanaKanji.Settings.Command

namespace KanaKanji

/-- The keys of each command. -/
structure Keymap where
  keys : Command → List KeyEvent

namespace Keymap

/-- No command has a key. -/
def empty : Keymap := ⟨fun _ => []⟩

/-- The event is bound to the command. -/
def binds (keymap : Keymap) (command : Command) (event : KeyEvent) : Bool :=
  (keymap.keys command).any fun key => key.sameKey event

/-- Give a command these keys and no other. -/
def set (keymap : Keymap) (command : Command) (keys : List KeyEvent) : Keymap :=
  ⟨fun c => if c = command then keys else keymap.keys c⟩

/-- Give a command one key more, unless it has it. -/
def bind (keymap : Keymap) (command : Command) (key : KeyEvent) : Keymap :=
  if key ∈ keymap.keys command then keymap
  else keymap.set command (keymap.keys command ++ [key])

/-- Take all its keys from a command. -/
def unbind (keymap : Keymap) (command : Command) : Keymap :=
  keymap.set command []

@[simp] theorem keys_set_self (keymap : Keymap) (command : Command) (keys : List KeyEvent) :
    (keymap.set command keys).keys command = keys := by
  simp [set]

theorem keys_set_of_ne {command other : Command} (h : other ≠ command) (keymap : Keymap)
    (keys : List KeyEvent) : (keymap.set command keys).keys other = keymap.keys other := by
  simp [set, h]

end Keymap

end KanaKanji

/-
Key events: a symbol and the modifiers held with it.

A symbol is a character or one of the named keys.  `KeyEvent.printable` is the
character that an event types, if it types one, and `KeyEvent.normalized` is what
keymaps compare: releases count as presses, and shift is no modifier of a character,
since the character tells it already.
-/
import KanaKanji.Text.Basic

namespace KanaKanji

/-! ### Modifiers -/

/-- The modifiers held while a key was pressed; `release` marks the key going up. -/
structure Modifiers where
  shift : Bool := false
  control : Bool := false
  alt : Bool := false
  metaKey : Bool := false
  release : Bool := false
  deriving DecidableEq, Repr

namespace Modifiers

/-- No modifier at all. -/
def none : Modifiers := {}

/-- The modifiers of a bit set: shift 1, control 2, alt 4, meta 8, release 128.  Other
bits do not count. -/
def ofBits (bits : Nat) : Modifiers where
  shift := bits.testBit 0
  control := bits.testBit 1
  alt := bits.testBit 2
  metaKey := bits.testBit 3
  release := bits.testBit 7

/-- The bit set of the modifiers. -/
def toBits (m : Modifiers) : Nat :=
  m.shift.toNat + 2 * m.control.toNat + 4 * m.alt.toNat + 8 * m.metaKey.toNat
    + 128 * m.release.toNat

@[simp] theorem ofBits_toBits (m : Modifiers) : ofBits m.toBits = m := by
  obtain ⟨a, b, c, d, e⟩ := m
  revert a b c d e
  decide

/-- The modifiers of either side. -/
def union (m n : Modifiers) : Modifiers where
  shift := m.shift || n.shift
  control := m.control || n.control
  alt := m.alt || n.alt
  metaKey := m.metaKey || n.metaKey
  release := m.release || n.release

/-- Control, alt or meta is held.  Shift alone makes no command. -/
def isCommand (m : Modifiers) : Bool :=
  m.control || m.alt || m.metaKey

end Modifiers

/-! ### Symbols -/

/-- The keys without a character that the engine knows. -/
inductive NamedKey
  | enter
  | escape
  | backSpace
  | tab
  | delete
  | left
  | right
  | up
  | down
  | home
  | endKey
  deriving DecidableEq, Repr

namespace NamedKey

/-- All named keys. -/
def all : List NamedKey :=
  [enter, escape, backSpace, tab, delete, left, right, up, down, home, endKey]

/-- The name of a key, as notation writes it. -/
def name : NamedKey → Text
  | enter => "Return".toList
  | escape => "Escape".toList
  | backSpace => "BackSpace".toList
  | tab => "Tab".toList
  | delete => "Delete".toList
  | left => "Left".toList
  | right => "Right".toList
  | up => "Up".toList
  | down => "Down".toList
  | home => "Home".toList
  | endKey => "End".toList

/-- The key of a name. -/
def ofName? (s : Text) : Option NamedKey :=
  all.find? fun k => k.name == s

theorem ofName?_name (k : NamedKey) : ofName? k.name = some k := by
  cases k <;> decide

/-- The key of a window system code. -/
def ofCode? : Nat → Option NamedKey
  | 0xFF08 => some backSpace
  | 0xFF09 => some tab
  | 0xFF0D => some enter
  | 0xFF1B => some escape
  | 0xFF50 => some home
  | 0xFF51 => some left
  | 0xFF52 => some up
  | 0xFF53 => some right
  | 0xFF54 => some down
  | 0xFF57 => some endKey
  | 0xFF8D => some enter
  | 0xFFFF => some delete
  | _ => Option.none

end NamedKey

/-- What a key stands for: a character or a named key. -/
inductive KeySym
  | char (c : Char)
  | named (k : NamedKey)
  deriving DecidableEq, Repr

namespace KeySym

/-- The symbol of a window system code.  The printable characters of the first 256 code
points are their own codes. -/
def ofCode? (code : Nat) : Option KeySym :=
  if (0x20 ≤ code ∧ code ≤ 0x7E) ∨ (0xA0 ≤ code ∧ code ≤ 0xFF) then
    some (char (Char.ofNat code))
  else (NamedKey.ofCode? code).map named

/-- The symbol is a character. -/
def isChar : KeySym → Bool
  | char _ => true
  | named _ => false

end KeySym

/-! ### Events -/

/-- A key symbol with the modifiers held. -/
structure KeyEvent where
  sym : KeySym
  modifiers : Modifiers
  deriving DecidableEq, Repr

/-- A control character: it has a code but no shape. -/
def isControlChar (c : Char) : Bool :=
  decide (c.toNat < 0x20) || (decide (0x7F ≤ c.toNat) && decide (c.toNat < 0xA0))

namespace KeyEvent

/-- The press of a character key alone. -/
def ofChar (c : Char) : KeyEvent :=
  ⟨.char c, .none⟩

/-- The event is a key going up.  No release is ever consumed. -/
def isRelease (e : KeyEvent) : Bool :=
  e.modifiers.release

/-- The character that the event types: that of a character key pressed with no modifier
but shift, unless it is a control. -/
def printable (e : KeyEvent) : Option Char :=
  match e.sym with
  | .char c =>
    if e.modifiers.isCommand || e.isRelease || isControlChar c then none else some c
  | .named _ => none

/-- The event with the modifiers that keymaps compare. -/
def normalized (e : KeyEvent) : KeyEvent :=
  ⟨e.sym, { e.modifiers with
    release := false
    shift := e.modifiers.shift && !e.sym.isChar }⟩

theorem normalized_normalized (e : KeyEvent) : e.normalized.normalized = e.normalized := by
  simp [normalized]

/-- Two events that keymaps do not tell apart. -/
def sameKey (e f : KeyEvent) : Bool :=
  e.normalized == f.normalized

end KeyEvent

end KanaKanji

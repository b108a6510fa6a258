/-
Key notation: how keymaps and key sequences write an event.

A notation is any number of the marks `C-`, `M-`, `A-` and `S-` before a base, which is
a single character or the name of a key (`a`, `K`, `space`, `C-g`, `S-Tab`).  A mark is
one only when something follows it, so that `C-` is a name and `C--` is control with `-`.
`KeyEvent.ofNotation` reads it and `KeyEvent.notationText` writes it; `KeyEvent.ofNotations`
reads a sequence.
-/
import KanaKanji.Key.Event
import KanaKanji.Text.Blank

namespace KanaKanji

/-! ### What can go wrong -/

/-- Why a text or a code names no key. -/
inductive KeyError
  | empty
  | unknownName (name : Text)
  | unresolvable (code : Nat)
  deriving DecidableEq, Repr

namespace KeyError

/-- The error in words. -/
def message : KeyError → Text
  | empty => "empty key string".toList
  | unknownName name => "unknown key name: ".toList ++ name
  | unresolvable code => "unresolvable keysym: 0x".toList ++ Nat.toDigits 16 code

end KeyError

/-! ### Reading -/

/-- The modifier of a mark's letter. -/
def modifierMark? : Char → Option Modifiers
  | 'C' => some { control := true }
  | 'M' => some { metaKey := true }
  | 'A' => some { alt := true }
  | 'S' => some { shift := true }
  | _ => none

/-- The modifiers of the marks at the front, and the base behind them. -/
def splitMarks : Text → Modifiers × Text
  | a :: '-' :: c :: s =>
    match modifierMark? a with
    | some m =>
      let (ms, base) := splitMarks (c :: s)
      (m.union ms, base)
    | none => (.none, a :: '-' :: c :: s)
  | s => (.none, s)

/-- Names of keys in notation, beside the names that keys are shown by. -/
def keyAliases : List (Text × KeySym) :=
  [("space".toList, .char ' '), ("slash".toList, .char '/'), ("Enter".toList, .named .enter)]

/-- The key of a name in notation. -/
def keySymOfName? (name : Text) : Option KeySym :=
  match keyAliases.find? fun p => p.1 == name with
  | some p => some p.2
  | none => (NamedKey.ofName? name).map .named

/-- The symbol of a base: its only character, or the key it names. -/
def keySymOfBase : Text → Except KeyError KeySym
  | [c] => .ok (.char c)
  | base =>
    match keySymOfName? base with
    | some sym => .ok sym
    | none => .error (.unknownName base)

namespace KeyEvent

/-- An upper-case letter is typed with shift. -/
def impliedModifiers : KeySym → Modifiers
  | .char c => { shift := c.isUpper }
  | .named _ => .none

/-- The event that a notation stands for.  Blanks around it do not count. -/
def ofNotation (s : Text) : Except KeyError KeyEvent :=
  match Text.trim s with
  | [] => .error .empty
  | notationText =>
    let (marks, base) := splitMarks notationText
    match keySymOfBase base with
    | .ok sym => .ok ⟨sym, marks.union (impliedModifiers sym)⟩
    | .error e => .error e

/-- The events of a sequence of notations with blanks between them, or the first error. -/
def ofNotations (s : Text) : Except KeyError (List KeyEvent) :=
  (Text.words s).mapM ofNotation

/-- The event of a window system code. -/
def ofCode (code : Nat) (modifiers : Modifiers) : Except KeyError KeyEvent :=
  match KeySym.ofCode? code with
  | some sym => .ok ⟨sym, modifiers⟩
  | none => .error (.unresolvable code)

/-! ### Writing -/

/-- The base that shows a symbol. -/
def baseText : KeySym → Text
  | .char ' ' => "space".toList
  | .char c => [c]
  | .named k => k.name

/-- A mark when its modifier is held. -/
def markText (held : Bool) (letter : Char) : Text :=
  if held then [letter, '-'] else []

/-- The event as notation shows it: the marks in a fixed order, without shift. -/
def notationText (e : KeyEvent) : Text :=
  markText e.modifiers.control 'C' ++ markText e.modifiers.metaKey 'M'
    ++ markText e.modifiers.alt 'A' ++ baseText e.sym

end KeyEvent

end KanaKanji

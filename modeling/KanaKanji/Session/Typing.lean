/-
Typing: keys that come while text is entered.

Directly typed romaji are committed as they resolve (`Situation.direct`), in the Latin
modes the characters themselves (`Situation.latin`).  A capital or a command opens a
reading, and while it is composed (`Situation.compose`) typed characters go to its buffer.
Okurigana that are complete, and a keyword at the end of the reading, start its conversion.
A reading that has grown too long is committed as kana, and the key is taken as typed
directly.

Design notes: a reading that a capital opens is empty and so never too long.  Hence
composing calls direct typing and not the other way round, and neither recurs.
-/
import KanaKanji.Session.Conversion

namespace KanaKanji

namespace Situation

variable (s : Situation)

/-! ### Composing a reading -/

/-- Commit a reading as kana, in a form. -/
def commitKana (form : Text → Text) (b : Buffer) : Outcome :=
  s.commits .idle (form (b.flush s.table).text)

/-- Convert a reading; an empty one is dropped. -/
def convert (b : Buffer) : Outcome :=
  let b := b.flush s.table
  if b.kana.isEmpty then s.moves .idle
  else s.moves (s.conversion b.key .kana)

/-- Complete a reading, unless okurigana have been opened. -/
def completeReading (b : Buffer) : Outcome :=
  if b.okuri.isSome then s.moves (.composing b)
  else
    let b := b.flush s.table
    s.moves (s.completion (.composing b) b.kana .kana)

/-- Drop the last character of a reading; with nothing left it ends. -/
def popReading (b : Buffer) : Outcome :=
  let b := b.pop
  s.moves (if b.isEmpty then .idle else .composing b)

/-- What a command key does while a reading is composed. -/
def composeCommand? (b : Buffer) (event : KeyEvent) : Option Outcome :=
  if s.binds .convert event then some (s.convert b)
  else if s.binds .commit event then some (s.commitKana s.render b)
  else if s.binds .delete event then some (s.popReading b)
  else if s.binds .complete event then some (s.completeReading b)
  else if s.binds .toggleKatakana event then some (s.commitKana s.mode.renderFlipped b)
  else if s.binds .beginComposition event then some (s.moves (.composing b))
  else none

/-- The key to convert by when a reading ends in a keyword: what comes before it, if that
is a reading, with the keyword as suffix.  Letters that resolved to nothing are no
reading. -/
def autoStartKey? (b : Buffer) : Option ConversionKey :=
  (s.settings.autoStartKeyword? b.kana).bind fun keyword =>
    let yomi := b.kana.take (b.kana.length - keyword.length)
    if yomi.isEmpty || yomi.any Char.isAlpha then none
    else some { yomi := yomi, suffix := keyword }

/-- What follows when a typed character has changed the buffer `old` to `b`. -/
def afterTyping (old b : Buffer) : Segment :=
  if b.okuriComplete then s.conversion b.key .kana
  else if decide (old.kana.length < b.kana.length) && b.okuri.isNone then
    match s.autoStartKey? b with
    | some key => s.conversion key .kana
    | none => .composing b
  else .composing b

/-- A character typed while a reading is composed. -/
def typeReading (b : Buffer) (c : Char) : Outcome :=
  s.moves (s.afterTyping b (b.type s.table c))

/-- A key with a printable character that opens a reading. -/
def openReading (event : KeyEvent) (c : Char) : Outcome :=
  match s.composeCommand? .empty event with
  | some outcome => outcome
  | none => s.typeReading .empty c

/-! ### Typing directly -/

/-- A key in a Latin mode.  The tail is left alone. -/
def latin (tail : Text) (event : KeyEvent) : Outcome :=
  if s.binds .hiraganaMode event then
    { s.moves (.direct tail) with mode := .hiragana }
  else match event.printable with
    | none => s.ignores (.direct tail)
    | some c => s.commits (.direct tail) [s.mode.latinChar c]

/-- What the tail commits when no key follows it. -/
def flushed (tail : Text) : Text :=
  s.render (s.table.flush tail)

/-- What a command key does while romaji are typed directly and the key can type the
character `c`. -/
def directCommand? (tail : Text) (event : KeyEvent) : Option Outcome :=
  let ended := s.commits .idle (s.flushed tail)
  if s.binds .toggleKatakana event then some { ended with mode := s.mode.toggled }
  else if s.binds .asciiMode event then some { ended with mode := .ascii }
  else if s.binds .zenkakuMode event then some { ended with mode := .zenkaku }
  else if s.binds .beginComposition event then
    some { ended with segment := .composing .empty }
  else if s.binds .abbreviation event then some { ended with segment := .abbreviation [] }
  else none

/-- A printable character typed directly: a capital opens a reading. -/
def typeDirect (tail : Text) (event : KeyEvent) (c : Char) : Outcome :=
  if c.isUpper then (s.openReading event c).after (s.flushed tail)
  else
    let step := s.table.feed tail c
    s.commits (.direct step.tail) (s.render step.emitted)

/-- A key while romaji are typed directly.  A tail that the key ends makes it consumed. -/
def romaji (tail : Text) (event : KeyEvent) : Outcome :=
  let pending := !tail.isEmpty
  let ended := s.commits .idle (s.flushed tail)
  if s.binds .cancel event then { s.moves .idle with consumed := pending }
  else if s.binds .delete event then
    { s.moves (.direct tail.dropLast) with consumed := pending }
  else if s.binds .hiraganaMode event then
    { ended with consumed := pending || s.mode != .hiragana, mode := .hiragana }
  else if s.binds .commit event then { ended with consumed := pending }
  else match event.printable with
    | none => s.ignores (.direct tail)
    | some c =>
      match s.directCommand? tail event with
      | some outcome => outcome
      | none => s.typeDirect tail event c

/-- A key while nothing is composed. -/
def direct (tail : Text) (event : KeyEvent) : Outcome :=
  if s.mode.isLatin then s.latin tail event else s.romaji tail event

/-! ### Keys while a reading is composed -/

/-- The reading has as many characters as it may have. -/
def isFull (b : Buffer) : Bool :=
  decide (s.settings.maxCompositionLength ≤ b.text.length)

/-- A key while a reading is composed. -/
def compose (b : Buffer) (event : KeyEvent) : Outcome :=
  match s.composeCommand? b event with
  | some outcome => outcome
  | none =>
    match event.printable with
    | none => s.ignores (.composing b)
    | some c =>
      if s.isFull b then
        (s.commitKana s.render b).andThen s fun s => s.direct [] event
      else s.typeReading b c

/-! ### Keys while an abbreviation is written -/

/-- A key while an abbreviation is written. -/
def abbreviate (letters : Text) (event : KeyEvent) : Outcome :=
  let stay := Segment.abbreviation letters
  if s.binds .convert event then
    s.moves (if letters.isEmpty then stay
      else s.conversion { yomi := letters } .abbreviation)
  else if s.binds .complete event then
    s.moves (if letters.isEmpty then stay else s.completion stay letters .abbreviation)
  else if s.binds .commit event then s.commits .idle letters
  else if s.binds .delete event then
    let letters := letters.dropLast
    s.moves (if letters.isEmpty then .idle else .abbreviation letters)
  else match event.printable with
    | none => s.ignores stay
    | some c => s.moves (.abbreviation (letters ++ [c]))

end Situation

end KanaKanji

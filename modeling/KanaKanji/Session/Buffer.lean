/-
Composition buffers: the text of a segment that is still being typed.

A buffer has the kana of the stem, the okurigana once a capital has opened them, and the
romaji tail, which belongs to the okurigana when they are open.  `Buffer.type` takes a
typed character into a buffer, `Buffer.pop` takes the last one out, and `Buffer.key` and
`Buffer.ofKey` go over to a conversion key and back.
-/
import KanaKanji.Dictionary.ConversionKey
import KanaKanji.Romaji.Transliteration

namespace KanaKanji

/-- A text that is being typed. -/
structure Buffer where
  kana : Text := []
  okuri : Option Text := none
  tail : Text := []
  deriving DecidableEq, Repr

namespace Buffer

/-- Nothing has been typed. -/
def empty : Buffer := {}

/-- Nothing is in the buffer.  Open okurigana are something, even before any kana. -/
def isEmpty (b : Buffer) : Bool :=
  b.kana.isEmpty && b.okuri.isNone && b.tail.isEmpty

/-- The okurigana, none if they are not open. -/
def okuriText (b : Buffer) : Text :=
  b.okuri.getD []

/-- Stem and okurigana, without the tail. -/
def text (b : Buffer) : Text :=
  b.kana ++ b.okuriText

/-- The number of characters in all parts. -/
def length (b : Buffer) : Nat :=
  b.kana.length + b.okuriText.length + b.tail.length

/-- The okurigana have a kana and nothing is pending. -/
def okuriComplete (b : Buffer) : Bool :=
  b.tail.isEmpty && !b.okuriText.isEmpty

/-- Resolved text at the end of the part that is being typed. -/
def append (b : Buffer) (s : Text) : Buffer :=
  match b.okuri with
  | some okuri => { b with okuri := some (okuri ++ s) }
  | none => { b with kana := b.kana ++ s }

/-- The tail resolved as if no key followed. -/
def flush (table : RomajiTable) (b : Buffer) : Buffer :=
  { b.append (table.flush b.tail) with tail := [] }

/-- The buffer without its last character: of the tail, then of the okurigana, then of the
stem.  With their last character the okurigana close. -/
def pop (b : Buffer) : Buffer :=
  if !b.tail.isEmpty then { b with tail := b.tail.dropLast }
  else match b.okuri with
    | some okuri =>
      { b with okuri := if okuri.length ≤ 1 then none else some okuri.dropLast }
    | none => { b with kana := b.kana.dropLast }

/-- A typed character.  A capital behind a stem opens the okurigana; what the old tail
resolves to then stays on the stem. -/
def type (table : RomajiTable) (b : Buffer) (c : Char) : Buffer :=
  if c.isUpper && b.okuri.isNone && !b.kana.isEmpty then
    let (head, step) := table.feedSplit b.tail c
    { kana := b.kana ++ head, okuri := some step.emitted, tail := step.tail }
  else
    let step := table.feed b.tail c
    { b.append step.emitted with tail := step.tail }

/-- The conversion key of stem and okurigana. -/
def key (b : Buffer) : ConversionKey where
  yomi := b.kana
  okuri := b.okuriText

/-- A conversion key as a text to be edited, its suffix at the end. -/
def ofKey (key : ConversionKey) : Buffer :=
  if key.okuri.isEmpty then { kana := key.yomi ++ key.suffix }
  else { kana := key.yomi, okuri := some (key.okuri ++ key.suffix) }

/-- Going back to editing keeps all that was typed. -/
theorem text_ofKey (key : ConversionKey) : (ofKey key).text = key.text := by
  unfold ofKey text okuriText ConversionKey.text
  split
  · rename_i h
    simp [List.isEmpty_iff.mp h]
  · simp

end Buffer

end KanaKanji

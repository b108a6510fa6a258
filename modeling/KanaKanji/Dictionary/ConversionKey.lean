/-
Conversion keys: what a reading is looked up by.

A key has the reading of the stem, the okurigana typed after it, and a suffix that ended
the reading and is carried along (the 。 of あい。).  Empty okurigana are no okurigana, and
so with the suffix.  `ConversionKey.headword` is the reading under which dictionaries list
the words of a key.
-/
import KanaKanji.Numeral

namespace KanaKanji

/-- A reading to be converted: stem, okurigana and suffix. -/
structure ConversionKey where
  yomi : Text
  okuri : Text := []
  suffix : Text := []
  deriving DecidableEq, Repr

namespace ConversionKey

/-- The key with another suffix. -/
def withSuffix (key : ConversionKey) (suffix : Text) : ConversionKey :=
  { key with suffix := suffix }

/-- All that was typed for the key. -/
def text (key : ConversionKey) : Text :=
  key.yomi ++ key.okuri ++ key.suffix

/-- The numbers of the stem, in order.  They fill the placeholders of surfaces. -/
def numbers (key : ConversionKey) : List Text :=
  (numericKey key.yomi).2

/-- The class letter of the okurigana, if there are any and they have one. -/
def classLetter? (key : ConversionKey) : Option Char :=
  key.okuri.head?.bind okuriClass

/-- The headword of the key: the stem with `#` for its numbers, and the class letter of
the okurigana behind it (かんがe for 考え). -/
def headword (key : ConversionKey) : Text :=
  (numericKey key.yomi).1 ++ key.classLetter?.toList

end ConversionKey

/-- A headword of inflected words: a class letter behind a character that is not ASCII. -/
def isOkuriHeadword (reading : Text) : Bool :=
  match reading.reverse with
  | last :: second :: _ => last.isLower && decide (0x80 ≤ second.toNat)
  | _ => false

end KanaKanji

/-
Input modes: the form in which kana are shown and committed.
-/
import KanaKanji.Kana

namespace KanaKanji

/-- The form of typed characters. -/
inductive InputMode
  | hiragana
  | katakana
  /-- Characters are committed as they are typed. -/
  | ascii
  /-- Characters are committed in full width. -/
  | zenkaku
  deriving DecidableEq, Repr

namespace InputMode

/-- In a Latin mode characters are no romaji. -/
def isLatin : InputMode → Bool
  | ascii => true
  | zenkaku => true
  | _ => false

/-- Kana in the form of the mode. -/
def render : InputMode → Text → Text
  | katakana, s => KanaKanji.katakana s
  | _, s => s

/-- Kana in the form that the mode does not have. -/
def renderFlipped : InputMode → Text → Text
  | katakana, s => KanaKanji.hiragana s
  | _, s => KanaKanji.katakana s

/-- A character typed in a Latin mode. -/
def latinChar : InputMode → Char → Char
  | zenkaku, c => fullWidth c
  | _, c => c

/-- The kana mode that a toggle leads to. -/
def toggled : InputMode → InputMode
  | katakana => hiragana
  | _ => katakana

end InputMode

end KanaKanji

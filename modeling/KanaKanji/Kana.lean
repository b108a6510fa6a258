/-
Kana: the two syllabaries and the changes of form between them.

The letters ぁ..ゖ and the iteration marks ゝゞ have a katakana twin 0x60 code
points further on; `katakana` and `hiragana` move between the twins and leave all
other characters alone.  `okuriClass` gives the class letter under which inflected
words are listed.
-/
import KanaKanji.Text.Basic

namespace KanaKanji

/-! ### The two syllabaries -/

/-- The block of hiragana. -/
def isHiragana (c : Char) : Bool :=
  codeWithin c 0x3040 0x309F

/-- The block of katakana. -/
def isKatakana (c : Char) : Bool :=
  codeWithin c 0x30A0 0x30FF

/-- Hiragana that have a katakana twin. -/
def hasKatakanaTwin (c : Char) : Bool :=
  codeWithin c 0x3041 0x3096 || codeWithin c 0x309D 0x309E

/-- The katakana twin of a hiragana letter; other characters stay. -/
def katakanaChar (c : Char) : Char :=
  if hasKatakanaTwin c then Char.ofNat (c.toNat + 0x60) else c

/-- The hiragana twin of a katakana letter; other characters stay. -/
def hiraganaChar (c : Char) : Char :=
  if isKatakana c && hasKatakanaTwin (Char.ofNat (c.toNat - 0x60)) then
    Char.ofNat (c.toNat - 0x60)
  else c

/-- The text with its hiragana in katakana. -/
def katakana (s : Text) : Text :=
  s.map katakanaChar

/-- The text with its katakana in hiragana. -/
def hiragana (s : Text) : Text :=
  s.map hiraganaChar

/-- The full-width form of a printable ASCII character; other characters stay. -/
def fullWidth (c : Char) : Char :=
  if c = ' ' then Char.ofNat 0x3000
  else if codeWithin c 0x21 0x7E then Char.ofNat (c.toNat - 0x21 + 0xFF01)
  else c

/-! ### Classes of okurigana -/

/-- The rows of the kana table with their class letters. -/
def okuriRows : List (Char × Text) :=
  [('a', "あぁ".toList), ('i', "いぃ".toList), ('u', "うぅ".toList), ('e', "えぇ".toList),
   ('o', "おぉ".toList), ('k', "かきくけこ".toList), ('g', "がぎぐげご".toList),
   ('s', "さしすせそ".toList), ('j', "じ".toList), ('z', "ざずぜぞ".toList),
   ('t', "たちつてとっ".toList), ('d', "だぢづでど".toList), ('n', "なにぬねのん".toList),
   ('h', "はひふへほ".toList), ('b', "ばびぶべぼ".toList), ('p', "ぱぴぷぺぽ".toList),
   ('m', "まみむめも".toList), ('y', "やゆよゃゅょ".toList), ('r', "らりるれろ".toList),
   ('w', "わをゎ".toList), ('v', "ゔ".toList)]

/-- The class letter of okurigana that start with `kana`: the consonant of its row,
a vowel for the vowels themselves. -/
def okuriClass (kana : Char) : Option Char :=
  (okuriRows.find? fun row => row.2.contains kana).map Prod.fst

/-! ### Moving to a twin and back -/

theorem toNat_katakanaChar {c : Char} (h : hasKatakanaTwin c = true) :
    (katakanaChar c).toNat = c.toNat + 0x60 := by
  have hc : c.toNat + 0x60 < 0xD800 := by
    simp only [hasKatakanaTwin, codeWithin, Bool.or_eq_true, Bool.and_eq_true,
      decide_eq_true_eq] at h
    omega
  rw [katakanaChar, if_pos h, Char.ofNat, dif_pos (Or.inl hc)]
  rfl

end KanaKanji

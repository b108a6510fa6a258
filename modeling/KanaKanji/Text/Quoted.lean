/-
Quoted text, as error messages show it.

A text stands between double quotes.  The quote, the backslash and the four named
controls are written with a backslash, every other character that is not printable
by its code point in braces, and all else as it is.
-/
import KanaKanji.Text.Printable

namespace KanaKanji

namespace Text

/-- The code point of a character in braces, in lower-case hexadecimal digits. -/
def codePointEscape (c : Char) : Text :=
  ['\\', 'u', '\x7b'] ++ Nat.toDigits 16 c.toNat ++ ['\x7d']

/-- How one character is written between quotes. -/
def quoteChar (c : Char) : Text :=
  match c with
  | '"' => ['\\', '"']
  | '\\' => ['\\', '\\']
  | '\t' => ['\\', 't']
  | '\n' => ['\\', 'n']
  | '\r' => ['\\', 'r']
  | '\x00' => ['\\', '0']
  | c => if isPrintable c then [c] else codePointEscape c

/-- The text between double quotes. -/
def quoted (s : Text) : Text :=
  '"' :: s.flatMap quoteChar ++ ['"']

example : quoted "k\"a\t".toList = "\"k\\\"a\\t\"".toList := by decide +kernel

end Text

end KanaKanji

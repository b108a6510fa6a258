/-
The four ways to quote a text in a TOML document.

Between double quotes a backslash starts an escape; between single quotes every
character stands for itself.  Three quotes open a text that may run over lines, in
which the first line end does not count, a line end is one line feed however it is
written, and up to two quotes may stand before the closing three.

Each reader takes the text after its opening quotes to the text quoted and what follows
the closing quotes, or to `none`.
-/
import KanaKanji.Text.Basic

namespace KanaKanji

namespace Toml

/-- Spaces and tabs. -/
def isSpace (c : Char) : Bool :=
  c == ' ' || c == '\t'

/-- Characters that may stand in a comment: all but the controls, and the tab. -/
def isPlainChar (c : Char) : Bool :=
  c == '\t' || codeWithin c 0x20 0x7E || decide (0x80 ≤ c.toNat)

/-- Characters that stand for themselves between double quotes. -/
def isBasicChar (c : Char) : Bool :=
  isPlainChar c && c != '"' && c != '\\'

/-- Characters that may stand between single quotes. -/
def isLiteralChar (c : Char) : Bool :=
  isPlainChar c && c != '\x27'

/-- The text begins with the end of a line, after spaces. -/
def atLineEnd (s : Text) : Bool :=
  match s.dropWhile isSpace with
  | '\n' :: _ => true
  | '\r' :: '\n' :: _ => true
  | _ => false

/-- The text without a line end at its front. -/
def dropLineEnd : Text → Text
  | '\n' :: s => s
  | '\r' :: '\n' :: s => s
  | s => s

/-! ### Escapes -/

/-- The character of an escape with a single letter. -/
def escapeChar? : Char → Option Char
  | 'b' => some '\x08'
  | 't' => some '\t'
  | 'n' => some '\n'
  | 'f' => some '\x0c'
  | 'r' => some '\r'
  | '"' => some '"'
  | '\\' => some '\\'
  | _ => none

/-- The value of a hexadecimal digit. -/
def hexDigit? (c : Char) : Option Nat :=
  if codeWithin c 0x30 0x39 then some (c.toNat - 0x30)
  else if codeWithin c 0x41 0x46 then some (c.toNat - 0x41 + 10)
  else if codeWithin c 0x61 0x66 then some (c.toNat - 0x61 + 10)
  else none

/-- The number that digits to a base write. -/
def number? (digit? : Char → Option Nat) (base : Nat) (digits : Text) : Option Nat :=
  digits.foldlM (fun n c => (digit? c).map (base * n + ·)) 0

/-- The character whose code point hexadecimal digits write. -/
def codePoint? (digits : Text) : Option Char :=
  (number? hexDigit? 16 digits).bind fun n =>
    if n.isValidChar then some (Char.ofNat n) else none

/-- A character before a text that is still to be read. -/
def before (c : Char) (r : Option (Text × Text)) : Option (Text × Text) :=
  r.map fun p => (c :: p.1, p.2)

/-! ### Texts on one line -/

/-- A text after its opening double quote. -/
def basicText : Text → Option (Text × Text)
  | '"' :: s => some ([], s)
  | '\\' :: 'u' :: a :: b :: c :: d :: s =>
    (codePoint? [a, b, c, d]).bind fun x => before x (basicText s)
  | '\\' :: 'U' :: a :: b :: c :: d :: e :: f :: g :: h :: s =>
    (codePoint? [a, b, c, d, e, f, g, h]).bind fun x => before x (basicText s)
  | '\\' :: e :: s => (escapeChar? e).bind fun x => before x (basicText s)
  | c :: s => if isBasicChar c then before c (basicText s) else none
  | [] => none

/-- A text after its opening single quote. -/
def literalText : Text → Option (Text × Text)
  | '\x27' :: s => some ([], s)
  | c :: s => if isLiteralChar c then before c (literalText s) else none
  | [] => none

/-! ### Texts over lines -/

/-- What follows three closing quotes: up to two more quotes belong to the text. -/
def closing (quote : Char) (s : Text) : Text × Text :=
  match s with
  | a :: b :: rest =>
    if a == quote then
      if b == quote then ([quote, quote], rest) else ([quote], b :: rest)
    else ([], s)
  | [a] => if a == quote then ([quote], []) else ([], s)
  | [] => ([], [])

/-- A text after three opening double quotes.  `trimming` holds after a backslash at the
end of a line, until a character that is neither blank nor a line end. -/
def basicLines : Text → Bool → Option (Text × Text)
  | '\r' :: '\n' :: s, trimming =>
    if trimming then basicLines s true else before '\n' (basicLines s false)
  | '"' :: '"' :: '"' :: s, _ => some (closing '"' s)
  | '\\' :: 'u' :: a :: b :: c :: d :: s, _ =>
    (codePoint? [a, b, c, d]).bind fun x => before x (basicLines s false)
  | '\\' :: 'U' :: a :: b :: c :: d :: e :: f :: g :: h :: s, _ =>
    (codePoint? [a, b, c, d, e, f, g, h]).bind fun x => before x (basicLines s false)
  | '\\' :: e :: s, _ =>
    if atLineEnd (e :: s) then basicLines s true
    else (escapeChar? e).bind fun x => before x (basicLines s false)
  | c :: s, trimming =>
    if c == '\n' || (trimming && isSpace c) then
      if trimming then basicLines s true else before '\n' (basicLines s false)
    else if isBasicChar c || c == '"' then before c (basicLines s false)
    else none
  | [], _ => none

/-- A text after three opening single quotes. -/
def literalLines : Text → Option (Text × Text)
  | '\r' :: '\n' :: s => before '\n' (literalLines s)
  | '\x27' :: '\x27' :: '\x27' :: s => some (closing '\x27' s)
  | c :: s =>
    if c == '\n' || isPlainChar c then before c (literalLines s) else none
  | [] => none

/-- A quoted text from its opening quotes on. -/
def quotation? : Text → Option (Text × Text)
  | '"' :: '"' :: '"' :: s => basicLines (dropLineEnd s) false
  | '"' :: s => basicText s
  | '\x27' :: '\x27' :: '\x27' :: s => literalLines (dropLineEnd s)
  | '\x27' :: s => literalText s
  | _ => none

/-! ### Writing -/

/-- How one character is written between double quotes: quotes and backslashes after a
backslash, controls by their code point. -/
def quoteTextChar (c : Char) : Text :=
  if c == '"' || c == '\\' then ['\\', c]
  else if isPlainChar c then [c]
  else "\\u00".toList ++ [Nat.digitChar (c.toNat / 16), Nat.digitChar (c.toNat % 16)]

/-- A text between double quotes. -/
def quoteText (s : Text) : Text :=
  '"' :: s.flatMap quoteTextChar ++ ['"']

end Toml

end KanaKanji

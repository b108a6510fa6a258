/-
Numbers inside readings.

A reading with digits is looked up with every run of digits replaced by `#`
(`12がつ4にち` becomes `#がつ#にち`), and the words found there carry placeholders
that say how each number is written back:

* `#0` as typed, 34;
* `#1` in full-width digits, ３４;
* `#2` one kanji for each digit, 三四;
* `#3` as a kanji numeral, 三十四.

`numericKey` takes the runs out, `expand` puts them back in their order.

Design notes: both are recursions over the text with one character of look-ahead,
so that they can be compared step by step.
-/
import KanaKanji.Kana

namespace KanaKanji

/-! ### Taking numbers out -/

/-- The text with each run of digits replaced by `#`, and the runs in order. -/
def numericKey : Text → Text × List Text
  | [] => ([], [])
  | c :: s =>
    let (key, numbers) := numericKey s
    if c.isDigit then
      match s, numbers with
      | d :: _, run :: runs =>
        if d.isDigit then (key, (c :: run) :: runs) else ('#' :: key, [c] :: numbers)
      | _, _ => ('#' :: key, [c] :: numbers)
    else (c :: key, numbers)

/-! ### Writing a number -/

/-- The value of a decimal digit. -/
def digitValue (c : Char) : Nat :=
  c.toNat - '0'.toNat

/-- The kanji of the ten digits. -/
def kanjiDigits : Text :=
  "〇一二三四五六七八九".toList

/-- The kanji of a digit value. -/
def kanjiDigit (d : Nat) : Char :=
  kanjiDigits.getD d '〇'

/-- The units of the four places of a group: one, ten, hundred, thousand. -/
def placeUnit : Nat → Text
  | 1 => ['十']
  | 2 => ['百']
  | 3 => ['千']
  | _ => []

/-- The units of the groups of four places. -/
def groupUnit : Nat → Text
  | 1 => ['万']
  | 2 => ['億']
  | 3 => ['兆']
  | 4 => ['京']
  | _ => []

/-- As many places as the group units name. -/
def maxPlaces : Nat := 20

/-- Digits in full width; other characters stay. -/
def fullWidthDigits (s : Text) : Text :=
  s.map fun c => if c.isDigit then Char.ofNat ('０'.toNat + digitValue c) else c

/-- One kanji for each digit; other characters stay. -/
def kanjiByDigit (s : Text) : Text :=
  s.map fun c => if c.isDigit then kanjiDigit (digitValue c) else c

/-- One digit with the unit of its place: nothing for zero, and no 一 in front of
十, 百 and 千. -/
def placeNumeral (d place : Nat) : Text :=
  if d = 0 then []
  else (if d = 1 ∧ place ≠ 0 then [] else [kanjiDigit d]) ++ placeUnit place

/-- The digits from left to right, each with its place, and the unit of a group after
the last place of it.  `inGroup` holds when the group has had a digit other than zero;
a group without one has no unit. -/
def placesNumeral : Text → Bool → Text
  | [], _ => []
  | c :: rest, inGroup =>
    let place := rest.length % 4
    let d := digitValue c
    let inGroup := inGroup || d != 0
    placeNumeral d place ++
      if place = 0 then
        (if inGroup then groupUnit (rest.length / 4) else []) ++ placesNumeral rest false
      else placesNumeral rest inGroup

/-- A kanji numeral (`10034` is 一万三十四).  Leading zeros do not count; more places than
the units name, or characters that are no digits, are written digit by digit. -/
def kanjiNumeral (s : Text) : Text :=
  let digits := s.dropWhile (· == '0')
  if digits.isEmpty then [kanjiDigit 0]
  else if maxPlaces < digits.length || !digits.all Char.isDigit then kanjiByDigit digits
  else placesNumeral digits false

/-! ### Putting numbers back -/

/-- How a placeholder has its number written. -/
inductive NumberForm
  | asTyped
  | fullWidth
  | byDigit
  | numeral
  deriving DecidableEq, Repr

namespace NumberForm

/-- The form that the character after a `#` asks for. -/
def ofChar? : Char → Option NumberForm
  | '0' => some asTyped
  | '1' => some fullWidth
  | '2' => some byDigit
  | '3' => some numeral
  | _ => none

/-- The number in this form. -/
def write : NumberForm → Text → Text
  | asTyped, s => s
  | fullWidth, s => fullWidthDigits s
  | byDigit, s => kanjiByDigit s
  | numeral, s => kanjiNumeral s

end NumberForm

/-- The surface with its placeholders filled by the numbers in order, as long as there
are numbers; all else stays as it is. -/
def expand : Text → List Text → Text
  | c :: d :: s, number :: numbers =>
    match c, NumberForm.ofChar? d with
    | '#', some form => form.write number ++ expand s numbers
    | _, _ => c :: expand (d :: s) (number :: numbers)
  | s, _ => s

end KanaKanji

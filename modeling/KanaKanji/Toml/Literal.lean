/-
Unquoted values of a TOML document: booleans, numbers, dates and times.

An unquoted value is a run of letters, digits and the signs `+ - _ . :`; only a date may
have one space inside, before a time.  `literal?` tells what a run is:

* an integer of 64 bits, decimal or with `0x`, `0o` or `0b`, underscores between digits;
* a float with a fraction or an exponent or both, or `inf` or `nan`, that does not round
  to positive infinity;
* a date, a time, or both with or without an offset, each part in its range.
-/
import KanaKanji.Toml.Item
import KanaKanji.Toml.Quotation

namespace KanaKanji

namespace Toml

/-! ### Runs of digits -/

/-- The value of a digit to a base. -/
def digit? (base : Nat) (c : Char) : Option Nat :=
  (hexDigit? c).bind fun d => if d < base then some d else none

/-- Digits to a base with single underscores between them, without the underscores. -/
def groupedDigits? (base : Nat) : Text → Option Text
  | [] => none
  | [c] => (digit? base c).map fun _ => [c]
  | c :: '_' :: s => (digit? base c).bind fun _ => (groupedDigits? base s).map (c :: ·)
  | c :: s => (digit? base c).bind fun _ => (groupedDigits? base s).map (c :: ·)

/-- Decimal digits without a leading zero, unless zero is all there is. -/
def wholeDigits? (s : Text) : Option Text :=
  match groupedDigits? 10 s with
  | some ('0' :: _ :: _) => none
  | digits => digits

/-- A text without its sign, and whether the sign is a minus. -/
def splitSign : Text → Bool × Text
  | '+' :: s => (false, s)
  | '-' :: s => (true, s)
  | s => (false, s)

/-- The number of digits to a base that have been checked. -/
def valueOf (base : Nat) (digits : Text) : Nat :=
  (number? hexDigit? base digits).getD 0

/-! ### Integers -/

/-- The integer fits into 64 bits. -/
def fitsWord (n : Int) : Bool :=
  decide (-9223372036854775808 ≤ n) && decide (n < 9223372036854775808)

/-- An integer of 64 bits. -/
def integer? (s : Text) : Option Int :=
  let n? : Option Int := match s with
    | '0' :: 'x' :: s => (groupedDigits? 16 s).map fun d => (valueOf 16 d : Int)
    | '0' :: 'o' :: s => (groupedDigits? 8 s).map fun d => (valueOf 8 d : Int)
    | '0' :: 'b' :: s => (groupedDigits? 2 s).map fun d => (valueOf 2 d : Int)
    | s =>
      let (minus, digits) := splitSign s
      (wholeDigits? digits).map fun d =>
        if minus then -(valueOf 10 d : Int) else (valueOf 10 d : Int)
  n?.bind fun n => if fitsWord n then some n else none

/-! ### Floats -/

/-- The least number that rounds to infinity: halfway between the greatest double and the
next power of two. -/
def infinityBound : Nat :=
  Nat.pow 2 1024 - Nat.pow 2 970

/-- The number `digits · 10 ^ exponent` rounds to infinity.  The number of places decides
before any large power is taken. -/
def roundsToInfinity (digits : Text) (exponent : Int) : Bool :=
  let digits := digits.dropWhile (· == '0')
  let places := (digits.length : Int) + exponent
  if digits.isEmpty || decide (places < 300) then false
  else if decide (310 < places) then true
  else if 0 ≤ exponent then
    decide (infinityBound ≤ valueOf 10 digits * Nat.pow 10 exponent.toNat)
  else decide (infinityBound * Nat.pow 10 (-exponent).toNat ≤ valueOf 10 digits)

/-- The exponent of a float, a sign and digits. -/
def exponent? (s : Text) : Option Int :=
  let (minus, digits) := splitSign s
  (groupedDigits? 10 digits).map fun d =>
    if minus then -(valueOf 10 d : Int) else (valueOf 10 d : Int)

/-- The text is a float that is not positive infinity by rounding. -/
def isFloat (s : Text) : Bool :=
  let (minus, body) := splitSign s
  if body == "inf".toList || body == "nan".toList then true
  else
    let isExponentMark := fun c => c == 'e' || c == 'E'
    let mantissa := body.takeWhile fun c => !isExponentMark c
    let power := body.dropWhile fun c => !isExponentMark c
    let whole := mantissa.takeWhile fun c => c != '.'
    let point := mantissa.dropWhile fun c => c != '.'
    let fraction? := match point with
      | [] => some []
      | _ :: digits => groupedDigits? 10 digits
    let exponent := match power with
      | [] => some 0
      | _ :: digits => exponent? digits
    match wholeDigits? whole, fraction?, exponent with
    | some whole, some fraction, some exponent =>
      !(point.isEmpty && power.isEmpty) &&
        (minus || !roundsToInfinity (whole ++ fraction) (exponent - fraction.length))
    | _, _, _ => false

/-! ### Dates and times -/

/-- Two decimal digits with a value in a range, and what follows. -/
def twoDigits? (least greatest : Nat) : Text → Option (Nat × Text)
  | a :: b :: s =>
    (number? (digit? 10) 10 [a, b]).bind fun n =>
      if least ≤ n ∧ n ≤ greatest then some (n, s) else none
  | _ => none

/-- The text after a certain character. -/
def after? (c : Char) : Text → Option Text
  | x :: s => if x == c then some s else none
  | [] => none

/-- The year has a 29th of February. -/
def isLeapYear (year : Nat) : Bool :=
  year % 4 == 0 && (year % 100 != 0 || year % 400 == 0)

/-- The days of a month. -/
def daysIn (year month : Nat) : Nat :=
  if month == 2 then (if isLeapYear year then 29 else 28)
  else if month == 4 || month == 6 || month == 9 || month == 11 then 30
  else 31

/-- A date, and what follows it. -/
def date? : Text → Option (Text × Text)
  | a :: b :: c :: d :: s => do
    let year ← number? (digit? 10) 10 [a, b, c, d]
    let (month, monthRest) ← (after? '-' s).bind (twoDigits? 1 12)
    let (_, rest) ← (after? '-' monthRest).bind (twoDigits? 1 (daysIn year month))
    some (a :: b :: c :: d :: s.take 6, rest)
  | _ => none

/-- A fraction of a second in its standard form: nine places, and no zeros at the end. -/
def secondFraction (digits : Text) : Text :=
  match ((digits.take 9).reverse.dropWhile (· == '0')).reverse with
  | [] => []
  | places => '.' :: places

/-- A time of day, and what follows it. -/
def time? (s : Text) : Option (Text × Text) := do
  let (_, afterHour) ← twoDigits? 0 23 s
  let (_, afterMinute) ← (after? ':' afterHour).bind (twoDigits? 0 59)
  let (_, rest) ← (after? ':' afterMinute).bind (twoDigits? 0 60)
  match rest with
  | '.' :: fraction =>
    let digits := fraction.takeWhile Char.isDigit
    if digits.isEmpty then none
    else some (s.take 8 ++ secondFraction digits, fraction.dropWhile Char.isDigit)
  | _ => some (s.take 8, rest)

/-- An offset from universal time at the end of a text, or nothing there. -/
def offset? : Text → Option Text
  | [] => some []
  | ['Z'] => some ['Z']
  | ['z'] => some ['Z']
  | sign :: s => do
    if sign != '+' && sign != '-' then none
    let (hour, afterHour) ← twoDigits? 0 23 s
    let (minute, rest) ← (after? ':' afterHour).bind (twoDigits? 0 59)
    if !rest.isEmpty then none
    else some ((if hour == 0 && minute == 0 then '+' else sign) :: s)

/-- A date, a time, or both, in standard form. -/
def moment? (s : Text) : Option Text :=
  match date? s with
  | some (date, []) => some date
  | some (date, mark :: rest) =>
    if mark == 'T' || mark == 't' || mark == ' ' then do
      let (time, rest) ← time? rest
      let offset ← offset? rest
      some (date ++ 'T' :: time ++ offset)
    else none
  | none =>
    match time? s with
    | some (time, []) => some time
    | _ => none

/-! ### Any unquoted value -/

/-- Characters of an unquoted value. -/
def isLiteralRunChar (c : Char) : Bool :=
  c.isAlphanum || c == '+' || c == '-' || c == '_' || c == '.' || c == ':'

/-- What a run of characters is. -/
def literal? (run : Text) : Option Item :=
  if run == "true".toList then some (.boolean true)
  else if run == "false".toList then some (.boolean false)
  else match moment? run with
    | some s => some (.moment s)
    | none =>
      if isFloat run then some .float
      else (integer? run).map .integer

/-- The run at the front of a text, and what follows: a date takes a time after one space
with it. -/
def splitRun (s : Text) : Text × Text :=
  let run := s.takeWhile isLiteralRunChar
  let rest := s.dropWhile isLiteralRunChar
  match date? run, rest with
  | some (_, []), ' ' :: c :: more =>
    if c.isDigit then
      (run ++ ' ' :: (c :: more).takeWhile isLiteralRunChar,
        (c :: more).dropWhile isLiteralRunChar)
    else (run, rest)
  | _, _ => (run, rest)

/-- An unquoted value, and what follows it. -/
def unquoted? (s : Text) : Option (Item × Text) :=
  let (run, rest) := splitRun s
  (literal? run).map fun item => (item, rest)

end Toml

end KanaKanji

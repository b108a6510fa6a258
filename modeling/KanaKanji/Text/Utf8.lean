/-
UTF-8: texts as bytes.

`Utf8.encode` writes each character in one to four bytes, and `Utf8.decode?` reads bytes
back.  Only the shortest form of a code point is read, and no surrogate.
-/
import KanaKanji.Text.Basic

namespace KanaKanji

namespace Utf8

/-- The last six bits of a number, marked as a byte that continues a character. -/
def tailByte (n : Nat) : UInt8 :=
  UInt8.ofNat (0x80 + n % 64)

/-- The bytes of a character. -/
def encodeChar (c : Char) : List UInt8 :=
  let n := c.toNat
  if n < 0x80 then [UInt8.ofNat n]
  else if n < 0x800 then [UInt8.ofNat (0xC0 + n / 64), tailByte n]
  else if n < 0x10000 then [UInt8.ofNat (0xE0 + n / 4096), tailByte (n / 64), tailByte n]
  else [UInt8.ofNat (0xF0 + n / 262144), tailByte (n / 4096), tailByte (n / 64), tailByte n]

/-- The bytes of a text. -/
def encode (s : Text) : List UInt8 :=
  s.flatMap encodeChar

/-- The six bits of a byte that continues a character. -/
def tailBits? (b : UInt8) : Option Nat :=
  if 0x80 ≤ b.toNat ∧ b.toNat < 0xC0 then some (b.toNat - 0x80) else none

/-- The character of a code point that is no less than `least`. -/
def charFrom? (least n : Nat) : Option Char :=
  if least ≤ n ∧ n.isValidChar then some (Char.ofNat n) else none

/-- A character of two bytes. -/
def char2? (b c : UInt8) : Option Char := do
  let y ← tailBits? c
  if 0xC0 ≤ b.toNat ∧ b.toNat < 0xE0 then charFrom? 0x80 ((b.toNat - 0xC0) * 64 + y) else none

/-- A character of three bytes. -/
def char3? (b c d : UInt8) : Option Char := do
  let y ← tailBits? c
  let z ← tailBits? d
  if 0xE0 ≤ b.toNat ∧ b.toNat < 0xF0 then
    charFrom? 0x800 ((b.toNat - 0xE0) * 4096 + y * 64 + z)
  else none

/-- A character of four bytes. -/
def char4? (b c d e : UInt8) : Option Char := do
  let x ← tailBits? c
  let y ← tailBits? d
  let z ← tailBits? e
  if 0xF0 ≤ b.toNat ∧ b.toNat < 0xF8 then
    charFrom? 0x10000 ((b.toNat - 0xF0) * 262144 + x * 4096 + y * 64 + z)
  else none

/-- The text of bytes.  The first byte of a character tells how many it has. -/
def decode? : List UInt8 → Option Text
  | [] => some []
  | b :: s =>
    if b.toNat < 0x80 then (decode? s).map (Char.ofNat b.toNat :: ·)
    else match s with
      | [] => none
      | c :: s =>
        if b.toNat < 0xE0 then (char2? b c).bind fun x => (decode? s).map (x :: ·)
        else match s with
          | [] => none
          | d :: s =>
            if b.toNat < 0xF0 then (char3? b c d).bind fun x => (decode? s).map (x :: ·)
            else match s with
              | [] => none
              | e :: s => (char4? b c d e).bind fun x => (decode? s).map (x :: ·)

end Utf8

end KanaKanji

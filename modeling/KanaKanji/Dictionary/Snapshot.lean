/-
Snapshots: the words of a dictionary as bytes.

A snapshot is a header of four letters and a version, then the number of words and the
words one by one: reading, surface, and a note or none.  Numbers take eight bytes,
the least first; a text is its length in bytes and its bytes in UTF-8; what is optional
follows a byte that tells whether it is there.  Bytes after the last word do not count.

`Snapshot.encode` writes the words of headwords in their order, and `Snapshot.decode`
reads words in whatever order they stand.
-/
import KanaKanji.Dictionary.Basic
import KanaKanji.Text.Utf8

namespace KanaKanji

namespace Snapshot

/-! ### The header -/

/-- The letters that a snapshot starts with. -/
def magic : List UInt8 := [0x53, 0x4B, 0x55, 0x44]

/-- The version of the format. -/
def version : UInt8 := 1

/-! ### Writing -/

/-- A number in so many bytes, the least first. -/
def numberBytes : Nat → Nat → List UInt8
  | 0, _ => []
  | width + 1, n => UInt8.ofNat n :: numberBytes width (n / 256)

/-- A length. -/
def lengthBytes (n : Nat) : List UInt8 :=
  numberBytes 8 n

/-- A text. -/
def textBytes (s : Text) : List UInt8 :=
  let bytes := Utf8.encode s
  lengthBytes bytes.length ++ bytes

/-- A text that may be absent. -/
def optionalBytes : Option Text → List UInt8
  | none => [0]
  | some s => 1 :: textBytes s

/-- A word. -/
def wordBytes (word : Word) : List UInt8 :=
  textBytes word.1 ++ textBytes word.2.surface ++ optionalBytes word.2.note

/-- The snapshot of headwords. -/
def encode (words : Headwords) : List UInt8 :=
  let listed := Headwords.words words
  magic ++ version :: lengthBytes listed.length ++ listed.flatMap wordBytes

/-! ### Reading -/

/-- A reader takes a value from the front of bytes. -/
abbrev Reader (α : Type) := List UInt8 → Except CodecFault (α × List UInt8)

/-- A number in so many bytes, the least first. -/
def readNumber : Nat → Reader Nat
  | 0, bytes => .ok (0, bytes)
  | _ + 1, [] => .error .endsEarly
  | width + 1, b :: bytes =>
    (readNumber width bytes).map fun (n, rest) => (b.toNat + 256 * n, rest)

/-- A length. -/
def readLength : Reader Nat :=
  readNumber 8

/-- A text. -/
def readText : Reader Text := fun bytes => do
  let (length, bytes) ← readLength bytes
  if bytes.length < length then .error .endsEarly
  else match Utf8.decode? (bytes.take length) with
    | some s => .ok (s, bytes.drop length)
    | none => .error .notUtf8

/-- A text that may be absent. -/
def readOptional : Reader (Option Text)
  | [] => .error .endsEarly
  | tag :: bytes =>
    if tag = 0 then .ok (none, bytes)
    else if tag = 1 then (readText bytes).map fun (s, rest) => (some s, rest)
    else .error .badTag

/-- A word. -/
def readWord : Reader Word := fun bytes => do
  let (reading, bytes) ← readText bytes
  let (surface, bytes) ← readText bytes
  let (note, bytes) ← readOptional bytes
  .ok ((reading, ⟨surface, note⟩), bytes)

/-- So many words. -/
def readWords : Nat → Reader (List Word)
  | 0, bytes => .ok ([], bytes)
  | count + 1, bytes => do
    let (word, bytes) ← readWord bytes
    let (words, bytes) ← readWords count bytes
    .ok (word :: words, bytes)

/-- The body behind a header of ours. -/
def body (bytes : List UInt8) : Except HeaderFault (List UInt8) :=
  if bytes.length < magic.length + 1 then .error .tooShort
  else if bytes.take magic.length ≠ magic then .error .badMagic
  else if (bytes.drop magic.length).head? ≠ some version then .error .unsupportedVersion
  else .ok (bytes.drop (magic.length + 1))

/-- The words of a snapshot. -/
def decodeWords (bytes : List UInt8) : Except DictionaryError (List Word) :=
  match body bytes with
  | .error fault => .error (.badHeader fault)
  | .ok rest =>
    match readLength rest with
    | .error fault => .error (.badBody fault)
    | .ok (count, rest) =>
      match readWords count rest with
      | .error fault => .error (.badBody fault)
      | .ok (words, _) => .ok words

/-- The dictionary of a snapshot. -/
def decode (bytes : List UInt8) : Except DictionaryError Dictionary :=
  (decodeWords bytes).map fun words => ⟨Dictionary.userName, true, Headwords.ofWords words⟩

end Snapshot

end KanaKanji

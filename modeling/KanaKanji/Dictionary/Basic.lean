/-
Dictionaries: named headwords that stay as they are or can be written to.

A dictionary that can be written to puts what it is given in front, so that its entries
stand by the time of their last registration.  `Dictionary.register` and
`Dictionary.purge` tell besides the new dictionary whether they found something to do.
-/
import KanaKanji.Dictionary.Headwords
import KanaKanji.Text.Quoted

namespace KanaKanji

/-! ### What can go wrong -/

/-- What makes the body of a snapshot unreadable. -/
inductive CodecFault
  /-- The bytes end before the value does. -/
  | endsEarly
  /-- A text is not UTF-8. -/
  | notUtf8
  /-- An optional value is marked neither absent nor present. -/
  | badTag
  deriving DecidableEq, Repr

/-- What makes a snapshot none of ours. -/
inductive HeaderFault
  | tooShort
  | badMagic
  | unsupportedVersion
  deriving DecidableEq, Repr

/-- Why a dictionary refuses. -/
inductive DictionaryError
  | readOnly (name : Text)
  | nothingWritable
  | emptyReading
  | emptySurface
  | badHeader (fault : HeaderFault)
  | badBody (fault : CodecFault)
  deriving DecidableEq, Repr

/-- The fault in words. -/
def HeaderFault.message : HeaderFault → Text
  | tooShort => "too short".toList
  | badMagic => "bad magic".toList
  | unsupportedVersion => "unsupported version".toList

namespace DictionaryError

/-- The error in words. -/
def message : DictionaryError → Text
  | readOnly name => "dictionary ".toList ++ Text.quoted name ++ " is read-only".toList
  | nothingWritable => "no writable dictionary attached".toList
  | emptyReading => "empty reading".toList
  | emptySurface => "empty surface".toList
  | badHeader fault => "invalid snapshot: ".toList ++ fault.message
  | badBody _ => "deserialization error".toList

end DictionaryError

/-! ### Dictionaries -/

/-- Named headwords. -/
structure Dictionary where
  name : Text
  writable : Bool
  words : Headwords

namespace Dictionary

/-- The name of a writable dictionary that nobody named. -/
def userName : Text := "user".toList

/-- The name of a read-only dictionary that nobody named. -/
def systemName : Text := "system".toList

/-- A dictionary that stays as it is. -/
def fixed (name : Text) (groups : List Group) : Dictionary :=
  ⟨name, false, Headwords.ofGroups groups⟩

/-- A dictionary that can be written to, with the words that it starts from. -/
def user (name : Text) (groups : List Group) : Dictionary :=
  ⟨name, true, Headwords.ofWords (Headwords.wordsOfGroups groups)⟩

/-- The entries under a reading. -/
def lookup (dictionary : Dictionary) (reading : Text) : List Entry :=
  Headwords.lookup dictionary.words reading

/-- The first groups whose reading starts with `stem`, at most `limit`. -/
def complete (dictionary : Dictionary) (stem : Text) (limit : Nat) : List Group :=
  Headwords.complete dictionary.words stem limit

/-- Put an entry in front of its reading, and whether its surface is new there. -/
def register (dictionary : Dictionary) (reading : Text) (entry : Entry) :
    Except DictionaryError (Bool × Dictionary) :=
  if !dictionary.writable then .error (.readOnly dictionary.name)
  else if reading.isEmpty then .error .emptyReading
  else if entry.surface.isEmpty then .error .emptySurface
  else .ok (!Entry.lists (dictionary.lookup reading) entry.surface,
    { dictionary with words := Headwords.register dictionary.words reading entry })

/-- Take a surface from a reading, and whether it was there. -/
def purge (dictionary : Dictionary) (reading surface : Text) :
    Except DictionaryError (Bool × Dictionary) :=
  if !dictionary.writable then .error (.readOnly dictionary.name)
  else .ok (Entry.lists (dictionary.lookup reading) surface,
    { dictionary with words := Headwords.purge dictionary.words reading surface })

/-- The readings with their surfaces, in order. -/
def list (dictionary : Dictionary) : List (Text × Text) :=
  (Headwords.words dictionary.words).map fun word => (word.1, word.2.surface)

end Dictionary

end KanaKanji

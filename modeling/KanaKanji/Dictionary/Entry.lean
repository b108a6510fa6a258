/-
Entries of a dictionary, and candidates for a key.

An entry is a surface, perhaps with a note.  A candidate is an entry with the key
it was found for; `Candidate.output` is the text that it commits.
-/
import KanaKanji.Dictionary.ConversionKey

namespace KanaKanji

/-- A word under a headword. -/
structure Entry where
  surface : Text
  note : Option Text := none
  deriving DecidableEq, Repr

namespace Entry

/-- Some entry has the surface. -/
def lists (entries : List Entry) (surface : Text) : Bool :=
  entries.any fun e => e.surface == surface

/-- An entry at the end, unless its surface is there already. -/
def addLast (entries : List Entry) (entry : Entry) : List Entry :=
  if lists entries entry.surface then entries else entries ++ [entry]

/-- The entries without those of a surface. -/
def without (entries : List Entry) (surface : Text) : List Entry :=
  entries.filter fun e => e.surface != surface

/-- Of the entries with one surface only the first. -/
def distinct (entries : List Entry) : List Entry :=
  entries.foldl addLast []

end Entry

/-- An entry with the key it was found for. -/
structure Candidate where
  key : ConversionKey
  entry : Entry
  deriving DecidableEq, Repr

namespace Candidate

/-- The text that the candidate commits: its surface with the numbers of the key, then the
okurigana as typed and the suffix. -/
def output (candidate : Candidate) : Text :=
  expand candidate.entry.surface candidate.key.numbers ++ candidate.key.okuri
    ++ candidate.key.suffix

end Candidate

end KanaKanji

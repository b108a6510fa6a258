/-
Headwords: the entries that a dictionary lists under each reading.

The readings are kept in order, and a reading without entries is not kept.  All changes
go through `Headwords.change`, which replaces the entries of one reading:

* `Headwords.lookup_change_self`: that reading has its new entries;
* `Headwords.lookup_change_of_ne`: all others have their old ones.

Headwords come from a list of groups in two ways.  `Headwords.ofGroups` takes each group as
a whole, for a dictionary that stays as it is; `Headwords.ofWords` takes word after word,
for a dictionary that goes on growing.
-/
import KanaKanji.Dictionary.Entry
import KanaKanji.Text.Index

namespace KanaKanji

/-- A reading with the entries under it. -/
abbrev Group := Text × List Entry

/-- A reading with one entry. -/
abbrev Word := Text × Entry

/-- The entries of each reading, the readings in order. -/
abbrev Headwords := Index (List Entry)

namespace Headwords

/-! ### Looking up and changing -/

/-- The entries under a reading; an unknown reading has none. -/
def lookup (words : Headwords) (reading : Text) : List Entry :=
  (words.find? reading).getD []

/-- The value that keeps some entries: none when there are no entries. -/
def kept (entries : List Entry) : Option (List Entry) :=
  if entries.isEmpty then none else some entries

/-- Replace the entries of a reading. -/
def change (words : Headwords) (reading : Text) (f : List Entry → List Entry) : Headwords :=
  words.alter reading fun entries => kept (f (entries.getD []))

theorem getD_kept (entries : List Entry) : (kept entries).getD [] = entries := by
  cases entries <;> rfl

/-- The reading has its new entries. -/
theorem lookup_change_self (words : Headwords) (reading : Text) (f : List Entry → List Entry) :
    lookup (change words reading f) reading = f (lookup words reading) := by
  rw [lookup, change, Index.find?_alter_self, getD_kept, lookup]

/-- Other readings have their old entries. -/
theorem lookup_change_of_ne {reading other : Text} (h : other ≠ reading) (words : Headwords)
    (f : List Entry → List Entry) :
    lookup (change words reading f) other = lookup words other := by
  rw [lookup, change, Index.find?_alter_of_ne h, lookup]

/-- The first groups whose reading starts with `stem`, at most `limit`. -/
def complete (words : Headwords) (stem : Text) (limit : Nat) : List Group :=
  (words.startingWith stem).take limit

/-- Put an entry in front of a reading's entries, in place of one with its surface. -/
def register (words : Headwords) (reading : Text) (entry : Entry) : Headwords :=
  change words reading fun entries => entry :: Entry.without entries entry.surface

/-- Take a surface from a reading. -/
def purge (words : Headwords) (reading surface : Text) : Headwords :=
  change words reading fun entries => Entry.without entries surface

/-- The number of readings. -/
def size (words : Headwords) : Nat :=
  words.items.length

/-- All words: the readings in order, each with its entries in order. -/
def words (words : Headwords) : List Word :=
  words.items.flatMap fun group => group.2.map fun entry => (group.1, entry)

/-! ### From lists -/

/-- Add a group: of its entries those that have a surface, and only those whose surface is
not there yet. -/
def addGroup (words : Headwords) (group : Group) : Headwords :=
  if group.1.isEmpty then words
  else change words group.1 fun entries =>
    (group.2.filter fun e => !e.surface.isEmpty).foldl Entry.addLast entries

/-- The headwords of a list of groups, group after group. -/
def ofGroups (groups : List Group) : Headwords :=
  groups.foldl addGroup Index.empty

/-- Add a word at the end of its reading, unless the reading or the surface is empty or the
surface is there already. -/
def addWord (words : Headwords) (word : Word) : Headwords :=
  if word.1.isEmpty || word.2.surface.isEmpty then words
  else change words word.1 fun entries => Entry.addLast entries word.2

/-- The headwords of a list of words, word after word. -/
def ofWords (words : List Word) : Headwords :=
  words.foldl addWord Index.empty

/-- The words of a list of groups. -/
def wordsOfGroups (groups : List Group) : List Word :=
  groups.flatMap fun group => group.2.map fun entry => (group.1, entry)

end Headwords

end KanaKanji

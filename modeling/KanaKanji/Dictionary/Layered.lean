/-
Layered dictionaries: several dictionaries asked as one.

Earlier layers come first, and later ones add only surfaces that have not been seen.
Words are registered in the first layer that can be written to and purged from all of
them.

Sessions share dictionaries, and a layer may stand more than once in a list.  So the
dictionaries lie on a `Shelf`, and the layers of a session are places on it.  Reading needs
the dictionaries only (`Layered`); writing answers a new shelf (`Shelf`).
-/
import KanaKanji.Dictionary.Basic

namespace KanaKanji

/-! ### Reading through layers -/

/-- Dictionaries asked as one, the first before the later ones. -/
abbrev Layered := List Dictionary

namespace Layered

/-- The entries under a reading, of each surface the first. -/
def lookup (layers : Layered) (reading : Text) : List Entry :=
  Entry.distinct (layers.flatMap fun d => d.lookup reading)

/-- The candidates for a key. -/
def candidates (layers : Layered) (key : ConversionKey) : List Candidate :=
  (lookup layers key.headword).map fun entry => ⟨key, entry⟩

/-- Groups gathered by reading, the entries of each reading in the order of the groups. -/
def gather (groups : List Group) : Headwords :=
  groups.foldl
    (fun words group => words.alter group.1 fun entries => some (entries.getD [] ++ group.2))
    Index.empty

/-- The first groups of all layers whose reading starts with `stem`, at most `limit`.  Each
layer is asked for no more than that. -/
def complete (layers : Layered) (stem : Text) (limit : Nat) : List Group :=
  let gathered := gather (layers.flatMap fun d => d.complete stem limit)
  (gathered.items.take limit).map fun group => (group.1, Entry.distinct group.2)

/-- The candidates that complete a reading: each entry of each headword that starts with
`stem`, without the headwords of inflected words.  Nothing completes the empty reading. -/
def completions (layers : Layered) (stem : Text) (limit : Nat) : List Candidate :=
  if stem.isEmpty then []
  else
    ((complete layers stem limit).filter fun group => !isOkuriHeadword group.1).flatMap
      fun group => group.2.map fun entry => ⟨{ yomi := group.1 }, entry⟩

/-- The first layer that can be written to. -/
def writable? (layers : Layered) : Option Dictionary :=
  layers.find? fun d => d.writable

end Layered

/-! ### Shelves -/

/-- The dictionaries that sessions share, each at its place. -/
abbrev Shelf := List Dictionary

/-- Places on a shelf, in the order in which they are asked. -/
abbrev Layers := List Nat

namespace Shelf

/-- The dictionaries at these places. -/
def select (shelf : Shelf) (layers : Layers) : Layered :=
  layers.filterMap fun place => shelf[place]?

/-- The dictionary at a place can be written to. -/
def isWritable (shelf : Shelf) (place : Nat) : Bool :=
  (shelf[place]?.map Dictionary.writable).getD false

/-- The first place whose dictionary can be written to. -/
def writablePlace? (shelf : Shelf) (layers : Layers) : Option Nat :=
  layers.find? fun place => isWritable shelf place

/-- Register an entry with the dictionary at a place. -/
def registerAt (shelf : Shelf) (place : Nat) (reading : Text) (entry : Entry) :
    Except DictionaryError (Bool × Shelf) :=
  match shelf[place]? with
  | none => .error .nothingWritable
  | some d => (d.register reading entry).map fun (isNew, d) => (isNew, shelf.set place d)

/-- Purge a surface from the dictionary at a place. -/
def purgeAt (shelf : Shelf) (place : Nat) (reading surface : Text) :
    Except DictionaryError (Bool × Shelf) :=
  match shelf[place]? with
  | none => .error .nothingWritable
  | some d => (d.purge reading surface).map fun (removed, d) => (removed, shelf.set place d)

/-- Register an entry in the first layer that can be written to, and whether its surface
is new there. -/
def register (shelf : Shelf) (layers : Layers) (reading : Text) (entry : Entry) :
    Except DictionaryError (Bool × Shelf) :=
  match writablePlace? shelf layers with
  | none => .error .nothingWritable
  | some place => registerAt shelf place reading entry

/-- Purge a surface from every layer that can be written to, and how many had it. -/
def purge (shelf : Shelf) : Layers → Text → Text → Nat × Shelf
  | [], _, _ => (0, shelf)
  | place :: layers, reading, surface =>
    match purgeAt shelf place reading surface with
    | .ok (removed, shelf) =>
      let (count, shelf) := purge shelf layers reading surface
      (removed.toNat + count, shelf)
    | .error _ => purge shelf layers reading surface

end Shelf

end KanaKanji

/-
Dictionaries and the files that they are saved to.

A dictionary that has been saved is opened again with its words, as long as no other is saved to
its place, or by way of its place.  Saving to a path writes its neighbour first, and moves it; a
dictionary that had been saved to the neighbour is gone then.  All this is about files that have one
place each: trees have no links, and paths no steps up.

* `Engine.Opens`: what loading a path gives;
* `Engine.saveDictionary_cases`: saving replaces a file or leaves all but its neighbour alone;
* `Engine.read_run`: a file is read as before after all requests that spare its place;
* `Engine.saved_apart`: so a dictionary that has been saved is opened again;
* `Engine.saved_neighbour_gone`: but not from the neighbour of another one.
-/
import KanaKanji.Proofs.Host.Files
import KanaKanji.Proofs.Host.Requests

namespace KanaKanji

namespace Engine

variable {engine : Engine} {handle : Nat} {path other : Path} {d : Dictionary}
  {words : Headwords} {bytes : List UInt8}

/-- Loading the path puts a dictionary with just these words on the shelf. -/
def Opens (engine : Engine) (path : Path) (words : Headwords) : Prop :=
  engine.loadDictionary path = .ok (engine.shelve ⟨Dictionary.userName, true, words⟩)

end Engine

end KanaKanji

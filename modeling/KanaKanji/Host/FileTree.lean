/-
File trees: the files that dictionaries are saved to.

A tree keeps its files and directories under their places.  Nothing can be put where
something of the other kind stands, nor below a file.  `FileTree.replace` writes a file by
way of a neighbour that has the ending `tmp`, so that no half-written file is ever seen
under the name itself.

Design notes: links are left out, symbolic and hard ones, and so are paths with a step up
(`..`).  A file has one place, and different places are different files.  Of a tree with links
none of this speaks: there a file is written through the link that has the name of the
neighbour, and the link is what is moved.
-/
import KanaKanji.Text.Index
import KanaKanji.Text.Utf8

namespace KanaKanji

/-! ### Names -/

/-- The text can be the name of a file: it is not empty, has no slash, and is neither of the
names that every directory gives to itself and to the one above it. -/
def isFileName (s : Text) : Bool :=
  !s.isEmpty && !s.contains '/' && !(s == ['.']) && !(s == ['.', '.'])

/-- The name of a file or a directory. -/
structure FileName where
  text : Text
  proper : isFileName text = true
  deriving DecidableEq

namespace FileName

/-- The text as a name, if it can be one. -/
def ofText? (s : Text) : Option FileName :=
  if h : isFileName s = true then some ⟨s, h⟩ else none

/-- A directory can hold the name: it has at most 255 bytes. -/
def isShort (name : FileName) : Bool :=
  decide ((Utf8.encode name.text).length ≤ 255)

/-- A text up to its last dot, without the dot.  A dot at the front does not count. -/
def stem (s : Text) : Text :=
  match (s.reverse.dropWhile (· != '.')).reverse with
  | [] => s
  | ['.'] => s
  | upToDot => upToDot.dropLast

theorem mem_of_mem_stem {c : Char} {s : Text} (h : c ∈ stem s) : c ∈ s := by
  unfold stem at h
  split at h
  · exact h
  · exact h
  · have hrev := List.mem_reverse.mp ((List.dropLast_sublist _).mem h)
    exact List.mem_reverse.mp ((List.dropWhile_sublist _).mem hrev)

/-- A stem and an ending make a name. -/
theorem isFileName_stem_append {s ending : Text} (hs : isFileName s = true)
    (hending : isFileName ending = true) : isFileName (stem s ++ '.' :: ending) = true := by
  simp only [isFileName, Bool.and_eq_true, Bool.not_eq_true', List.contains_eq_mem,
    decide_eq_false_iff_not, List.isEmpty_eq_false_iff, beq_eq_false_iff_ne] at hs hending ⊢
  obtain ⟨⟨⟨_, hslash⟩, _⟩, _⟩ := hs
  obtain ⟨⟨⟨hne, hslash'⟩, hdot⟩, _⟩ := hending
  refine ⟨⟨⟨by simp, fun h => ?_⟩, fun h => ?_⟩, fun h => ?_⟩
  · rcases List.mem_append.mp h with h | h
    · exact hslash (mem_of_mem_stem h)
    · rcases List.mem_cons.mp h with h | h
      · exact absurd h (by decide)
      · exact hslash' h
  · have := congrArg List.length h
    have := List.length_pos_iff.mpr hne
    simp at *
    omega
  · match hstem : stem s, h with
    | [], h => exact hdot (by simpa using h)
    | [_], h => exact hne (by simp at h; exact h.2)
    | _ :: _ :: _, h =>
      have := congrArg List.length h
      simp at this

/-- The name with another ending. -/
def withEnding (name ending : FileName) : FileName where
  text := stem name.text ++ '.' :: ending.text
  proper := isFileName_stem_append name.proper ending.proper

/-- The ending is all that keeps the name apart from two dots, the directory above. -/
def isTwoDotsWithoutEnding (name : FileName) : Bool :=
  stem name.text == ['.']

end FileName

/-! ### Places -/

/-- The names that lead from the root to a file or a directory. -/
abbrev Place := List FileName

namespace Place

/-- The names with slashes between them. -/
def text : Place → Text
  | [] => []
  | [name] => name.text
  | name :: names => name.text ++ '/' :: text names

/-- The directory that a place is in; the root is in itself. -/
def parent (place : Place) : Place :=
  place.dropLast

/-- The places on the way from the root, which is left out, to a place. -/
def route : Place → List Place
  | [] => []
  | name :: names => [name] :: (route names).map (name :: ·)

/-- The place with another ending of its last name. -/
def withEnding (ending : FileName) : Place → Place
  | [] => []
  | [name] => [name.withEnding ending]
  | name :: names => name :: withEnding ending names

/-- The place can be asked for: it has no null, and fewer than 4096 bytes. -/
def isUsable (place : Place) : Bool :=
  !place.text.contains '\x00' && decide ((Utf8.encode place.text).length < 4096)

/-- A directory can hold the last name of the place. -/
def isShort (place : Place) : Bool :=
  place.getLast?.all FileName.isShort

end Place

/-! ### Paths -/

/-- A place as it is asked for, without steps up. -/
structure Path where
  place : Place
  /-- Only a directory will do. -/
  wantsDirectory : Bool
  deriving DecidableEq

namespace Path

/-- The path that a text writes.  Dots and what is empty lead nowhere, and at the end they ask
for a directory.  A text that starts at the root of all files or has a step up writes no path. -/
def ofText? (s : Text) : Option Path :=
  let steps := Text.stretches (· == '/') s
  if s.head? == some '/' || steps.contains ['.', '.'] then none
  else some {
    place := steps.filterMap FileName.ofText?
    wantsDirectory := (steps.getLast?.bind FileName.ofText?).isNone }

/-- Taking the ending off the path leaves the directory above. -/
def leadsUpWithoutEnding (path : Path) : Bool :=
  !path.wantsDirectory && path.place.getLast?.any FileName.isTwoDotsWithoutEnding

end Path

/-! ### Trees -/

/-- What stands at a place; it is no link. -/
inductive FileNode
  | directory
  | file (bytes : List UInt8)
  deriving DecidableEq

/-- Why a file cannot be read or written. -/
inductive FileError
  /-- Nothing stands there. -/
  | missing
  /-- Something of the other kind stands there or on the way. -/
  | blocked
  /-- Nothing can stand there. -/
  | unusable
  deriving DecidableEq, Repr

/-- Files and directories by the texts of their places. -/
structure FileTree where
  nodes : Index FileNode

namespace FileTree

/-- The root alone. -/
def empty : FileTree := ⟨Index.empty⟩

/-- What stands at a place. -/
def node? (tree : FileTree) (place : Place) : Option FileNode :=
  if place.isEmpty then some .directory else tree.nodes.find? place.text

/-- A directory stands at the place. -/
def isDirectory (tree : FileTree) (place : Place) : Bool :=
  tree.node? place == some .directory

/-- The tree with another node at a place. -/
def put (tree : FileTree) (place : Place) (node : FileNode) : FileTree :=
  ⟨tree.nodes.insert place.text node⟩

/-- The tree without the node at a place. -/
def remove (tree : FileTree) (place : Place) : FileTree :=
  ⟨tree.nodes.alter place.text fun _ => none⟩

/-! ### Reading -/

/-- Why nothing stands at a place whose directory is there. -/
def absence (place : Place) : FileError :=
  if place.isShort then .missing else .unusable

/-- Go through directories one after the other, or meet what is none. -/
def passThrough (tree : FileTree) : List Place → Except FileError Unit
  | [] => .ok ()
  | place :: places =>
    match tree.node? place with
    | some .directory => passThrough tree places
    | some (.file _) => .error .blocked
    | none => .error (absence place)

/-- The bytes of a file. -/
def read (tree : FileTree) (path : Path) : Except FileError (List UInt8) :=
  if !path.place.isUsable then .error .unusable
  else (tree.passThrough path.place.parent.route).bind fun _ =>
    match tree.node? path.place with
    | none => .error (absence path.place)
    | some .directory => .error .blocked
    | some (.file bytes) => if path.wantsDirectory then .error .blocked else .ok bytes

/-! ### Writing -/

/-- Make directories one after the other.  Those that are made stay when one cannot be. -/
def makeEach (tree : FileTree) : List Place → Except FileError Unit × FileTree
  | [] => (.ok (), tree)
  | place :: places =>
    match tree.node? place with
    | some .directory => makeEach tree places
    | some (.file _) => (.error .blocked, tree)
    | none =>
      if place.isShort then makeEach (tree.put place .directory) places
      else (.error .unusable, tree)

/-- Make the directory at a place, and those on the way to it. -/
def makeDirectories (tree : FileTree) (place : Place) : Except FileError Unit × FileTree :=
  if place.isUsable then tree.makeEach place.route else (.error .unusable, tree)

/-- What keeps a file from being put at the path. -/
def obstacle? (tree : FileTree) (path : Path) : Option FileError :=
  if !path.place.isUsable || !path.place.isShort then some .unusable
  else if path.wantsDirectory || tree.isDirectory path.place then some .blocked
  else if !tree.isDirectory path.place.parent then some .missing
  else none

/-- The tree with these bytes in a file, in a directory that is there. -/
def write (tree : FileTree) (path : Path) (bytes : List UInt8) : Except FileError FileTree :=
  match tree.obstacle? path with
  | some e => .error e
  | none => .ok (tree.put path.place (.file bytes))

/-- Write a file after making the directories that lead to it.  These stay when the file
cannot be written. -/
def create (tree : FileTree) (path : Path) (bytes : List UInt8) :
    Except FileError Unit × FileTree :=
  match tree.makeDirectories path.place.parent with
  | (.error e, tree) => (.error e, tree)
  | (.ok _, tree) =>
    match tree.write path bytes with
    | .error e => (.error e, tree)
    | .ok tree => (.ok (), tree)

/-- The tree with a file moved over the file of a path, if there is one. -/
def move (tree : FileTree) (source : Place) (target : Path) : Except FileError FileTree :=
  match tree.node? source, tree.obstacle? target with
  | none, _ => .error .missing
  | some _, some e => .error e
  | some node, none => .ok ((tree.remove source).put target.place node)

/-- The ending of the neighbour that a file is written by way of. -/
def temporaryEnding : FileName := ⟨"tmp".toList, by decide⟩

/-- Write a file by way of its neighbour.  If the file cannot be put in place, the
neighbour stays.  A path that leads up without its ending has a directory for neighbour. -/
def replace (tree : FileTree) (path : Path) (bytes : List UInt8) :
    Except FileError Unit × FileTree :=
  match tree.makeDirectories path.place.parent with
  | (.error e, tree) => (.error e, tree)
  | (.ok _, tree) =>
    if path.leadsUpWithoutEnding then (.error .blocked, tree)
    else
      let neighbour := path.place.withEnding temporaryEnding
      match tree.write ⟨neighbour, false⟩ bytes with
      | .error e => (.error e, tree)
      | .ok tree =>
        match tree.move neighbour path with
        | .error e => (.error e, tree)
        | .ok tree => (.ok (), tree)

/-- The texts of the places of all files, in order. -/
def files (tree : FileTree) : List Text :=
  tree.nodes.items.filterMap fun (text, node) =>
    match node with
    | .file _ => some text
    | .directory => none

end FileTree

end KanaKanji

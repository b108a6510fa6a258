/-
What writing a file changes in a file tree.

A file is written by way of its neighbour (`Place.neighbour`), so two files can change, and
directories can only become more:

* `Place.text_injective`: a tree tells places apart by their texts;
* `FileTree.replaced`: when it succeeds, the file has the new bytes, its neighbour is gone, and all
  other files stay as they are;
* `FileTree.keeps_replace_of_error`: when it fails, the file itself stays, too.

Design notes: a tree may have anything under any text, even a file below a file.  What can be read
lies below directories (`FileTree.read_eq_ok_iff`), and directories stay, so no more is needed of
the tree.
-/
import KanaKanji.Host.FileTree

namespace KanaKanji

/-! ### Places and their texts -/

theorem FileName.text_ne_nil (name : FileName) : name.text ≠ [] := by
  have hproper := name.proper
  intro hnil
  rw [hnil] at hproper
  exact absurd hproper (by decide)

theorem FileName.slash_notMem (name : FileName) : '/' ∉ name.text := by
  have hproper := name.proper
  simp only [isFileName, Bool.and_eq_true, Bool.not_eq_true', List.contains_eq_mem,
    decide_eq_false_iff_not] at hproper
  exact hproper.1.1.2

/-- A slash shows where a text without slashes ends. -/
theorem append_slash_inj {s t x y : Text} (hs : '/' ∉ s) (ht : '/' ∉ t)
    (h : s ++ '/' :: x = t ++ '/' :: y) : s = t ∧ x = y := by
  induction s generalizing t with
  | nil =>
    cases t with
    | nil => exact ⟨rfl, (List.cons.inj h).2⟩
    | cons d t =>
      have hd : '/' = d := (List.cons.inj h).1
      exact absurd (hd ▸ List.mem_cons_self) ht
  | cons c s ih =>
    rw [List.mem_cons, not_or] at hs
    cases t with
    | nil => exact absurd (List.cons.inj h).1.symm hs.1
    | cons d t =>
      rw [List.mem_cons, not_or] at ht
      obtain ⟨rfl, hrest⟩ := List.cons.inj h
      obtain ⟨rfl, rfl⟩ := ih hs.2 ht.2 hrest
      exact ⟨rfl, rfl⟩

theorem FileName.ext_text {name other : FileName} (h : name.text = other.text) : name = other := by
  cases name
  cases other
  cases h
  rfl

namespace Place

theorem text_cons_cons (name next : FileName) (names : Place) :
    text (name :: next :: names) = name.text ++ '/' :: text (next :: names) := rfl

theorem text_cons_ne_nil (name : FileName) (names : Place) : text (name :: names) ≠ [] := by
  cases names with
  | nil => exact name.text_ne_nil
  | cons next names => simp [text_cons_cons]

/-- **Places are told apart by their texts**, as no name has a slash. -/
theorem text_injective {place other : Place} (h : place.text = other.text) : place = other := by
  induction place generalizing other with
  | nil =>
    cases other with
    | nil => rfl
    | cons name names => exact absurd h.symm (text_cons_ne_nil name names)
  | cons name names ih =>
    -- the text of a place with more names has a slash
    have hslash : ∀ (first second : FileName) (rest : Place) (single : FileName),
        single.text ≠ text (first :: second :: rest) := by
      intro first second rest single hsingle
      refine single.slash_notMem ?_
      rw [hsingle, text_cons_cons]
      simp
    cases other with
    | nil => exact absurd h (text_cons_ne_nil name names)
    | cons first rest =>
      cases names with
      | nil =>
        cases rest with
        | nil => rw [FileName.ext_text h]
        | cons second rest => exact absurd h (hslash first second rest name)
      | cons next names =>
        cases rest with
        | nil => exact absurd h.symm (hslash name next names first)
        | cons second rest =>
          obtain ⟨hname, hnames⟩ := append_slash_inj name.slash_notMem first.slash_notMem h
          rw [FileName.ext_text hname, ih hnames]

theorem text_ne {place other : Place} (h : other ≠ place) : other.text ≠ place.text :=
  fun htext => h (text_injective htext)

/-- The place by way of which a file is written. -/
def neighbour (place : Place) : Place :=
  place.withEnding FileTree.temporaryEnding

end Place

namespace FileTree

variable {tree made after : FileTree} {place other : Place} {places more : List Place}
  {node : FileNode} {bytes : List UInt8} {path : Path} {e : FileError}

/-! ### Nodes -/

theorem isDirectory_iff :
    tree.isDirectory place = true ↔ tree.node? place = some .directory :=
  beq_iff_eq

theorem ne_nil_of_not_directory (h : tree.isDirectory place = false) : place ≠ [] := by
  rintro rfl
  exact nomatch h

theorem not_directory_of_file (h : tree.node? place = some (.file bytes)) :
    tree.isDirectory place = false := by
  rw [isDirectory, h]
  rfl

@[simp] theorem node?_put_self (h : place ≠ []) :
    (tree.put place node).node? place = some node := by
  rw [node?, if_neg (by simpa using h), put, Index.insert, Index.find?_alter_self]

theorem node?_put_of_ne (h : other ≠ place) :
    (tree.put place node).node? other = tree.node? other := by
  rw [node?, node?, put, Index.insert, Index.find?_alter_of_ne (Place.text_ne h)]

@[simp] theorem node?_remove_self (h : place ≠ []) : (tree.remove place).node? place = none := by
  rw [node?, if_neg (by simpa using h), remove, Index.find?_alter_self]

theorem node?_remove_of_ne (h : other ≠ place) :
    (tree.remove place).node? other = tree.node? other := by
  rw [node?, node?, remove, Index.find?_alter_of_ne (Place.text_ne h)]

/-! ### What stays -/

/-- All directories stay, and so do all files but those at the places. -/
structure Keeps (places : List Place) (tree after : FileTree) : Prop where
  directory : ∀ place, tree.isDirectory place = true → after.isDirectory place = true
  file : ∀ place bytes, place ∉ places → tree.node? place = some (.file bytes) →
    after.node? place = some (.file bytes)

theorem keeps_refl (places : List Place) (tree : FileTree) : Keeps places tree tree :=
  ⟨fun _ h => h, fun _ _ _ h => h⟩

theorem Keeps.trans (h : Keeps places tree made) (hafter : Keeps places made after) :
    Keeps places tree after where
  directory place hd := hafter.directory place (h.directory place hd)
  file place bytes hout hf := hafter.file place bytes hout (h.file place bytes hout hf)

theorem Keeps.mono (h : Keeps places tree after) (hsub : places ⊆ more) :
    Keeps more tree after where
  directory := h.directory
  file place bytes hout hf := h.file place bytes (fun hin => hout (hsub hin)) hf

/-- A directory is made where nothing is. -/
theorem keeps_put_directory (h : tree.node? place = none) :
    Keeps places tree (tree.put place .directory) := by
  have hother : ∀ other node, tree.node? other = some node →
      (tree.put place .directory).node? other = some node := by
    intro other node hnode
    have hne : other ≠ place := by
      rintro rfl
      exact nomatch hnode.symm.trans h
    rw [node?_put_of_ne hne, hnode]
  constructor
  case directory =>
    intro other hd
    rw [isDirectory_iff] at hd ⊢
    exact hother other _ hd
  case file =>
    intro other bytes _ hf
    exact hother other _ hf

/-- Another node takes the place of a file, or of nothing, or nothing does. -/
theorem keeps_of_node?_eq (h : tree.isDirectory place = false)
    (hother : ∀ other, other ≠ place → after.node? other = tree.node? other) :
    Keeps [place] tree after := by
  constructor
  case directory =>
    intro other hd
    have hne : other ≠ place := by
      rintro rfl
      exact nomatch hd.symm.trans h
    rw [isDirectory_iff, hother other hne]
    exact isDirectory_iff.mp hd
  case file =>
    intro other bytes hout hf
    rw [hother other (by simpa using hout), hf]

theorem keeps_put (h : tree.isDirectory place = false) (node : FileNode) :
    Keeps [place] tree (tree.put place node) :=
  keeps_of_node?_eq h fun _ hne => node?_put_of_ne hne

theorem keeps_remove (h : tree.isDirectory place = false) :
    Keeps [place] tree (tree.remove place) :=
  keeps_of_node?_eq h fun _ hne => node?_remove_of_ne hne

/-! ### Reading -/

theorem passThrough_eq_ok_iff :
    tree.passThrough places = .ok () ↔ ∀ place ∈ places, tree.isDirectory place = true := by
  induction places with
  | nil => simp [passThrough]
  | cons place places ih =>
    rw [List.forall_mem_cons, isDirectory_iff, passThrough]
    split
    · rename_i hnode
      simp [ih, hnode]
    · rename_i hnode
      simp [hnode]
    · rename_i hnode
      simp [hnode]

/-- What can be read is a file below directories. -/
theorem read_eq_ok_iff :
    tree.read path = .ok bytes ↔ path.place.isUsable = true ∧
      (∀ place ∈ path.place.parent.route, tree.isDirectory place = true) ∧
      tree.node? path.place = some (.file bytes) ∧ path.wantsDirectory = false := by
  rw [read]
  cases husable : path.place.isUsable with
  | false => simp
  | true =>
    simp only [Bool.not_true, Bool.false_eq_true, if_false, true_and]
    rw [← passThrough_eq_ok_iff]
    cases hpass : tree.passThrough path.place.parent.route with
    | error e => simp [Except.bind]
    | ok _ =>
      simp only [Except.bind, true_and]
      split
      · rename_i hnode
        simp [hnode]
      · rename_i hnode
        simp [hnode]
      · rename_i hnode
        cases path.wantsDirectory <;> simp [hnode]

/-- **What stays can be read as before.** -/
theorem Keeps.read (h : Keeps places tree after) (hout : path.place ∉ places)
    (hread : tree.read path = .ok bytes) : after.read path = .ok bytes := by
  rw [read_eq_ok_iff] at hread ⊢
  obtain ⟨husable, hroute, hfile, hplain⟩ := hread
  refine ⟨husable, ?_, h.file _ _ hout hfile, hplain⟩
  intro place hplace
  exact h.directory place (hroute place hplace)

/-! ### Making directories -/

theorem keeps_makeEach (places : List Place) (tree : FileTree) (route : List Place) :
    Keeps places tree (tree.makeEach route).2 := by
  induction route generalizing tree with
  | nil => exact keeps_refl places tree
  | cons place route ih =>
    unfold makeEach
    split
    · exact ih tree
    · exact keeps_refl places tree
    · rename_i hnone
      split
      · exact (keeps_put_directory hnone).trans (ih _)
      · exact keeps_refl places tree

theorem keeps_makeDirectories (places : List Place) (tree : FileTree) (place : Place) :
    Keeps places tree (tree.makeDirectories place).2 := by
  unfold makeDirectories
  split
  · exact keeps_makeEach places tree place.route
  · exact keeps_refl places tree

/-- The directories that have been made are there. -/
theorem isDirectory_of_makeEach {route : List Place}
    (hok : tree.makeEach route = (.ok (), made)) :
    ∀ place ∈ route, made.isDirectory place = true := by
  induction route generalizing tree with
  | nil => simp
  | cons place route ih =>
    rw [List.forall_mem_cons]
    -- the first one is there when the others are made, and stays
    have hfirst : ∀ start : FileTree, start.isDirectory place = true →
        start.makeEach route = (.ok (), made) →
        made.isDirectory place = true ∧ ∀ other ∈ route, made.isDirectory other = true := by
      intro start hstart hrest
      have hstays := keeps_makeEach [] start route
      rw [hrest] at hstays
      exact ⟨hstays.directory place hstart, ih hrest⟩
    unfold makeEach at hok
    split at hok
    · rename_i hnode
      exact hfirst tree (isDirectory_iff.mpr hnode) hok
    · cases hok
    · rename_i hnode
      split at hok
      · refine hfirst _ ?_ hok
        have hne : place ≠ [] := by
          rintro rfl
          cases hnode
        rw [isDirectory_iff, node?_put_self hne]
      · cases hok

theorem isDirectory_of_makeDirectories (hok : tree.makeDirectories place = (.ok (), made)) :
    ∀ other ∈ place.route, made.isDirectory other = true := by
  unfold makeDirectories at hok
  split at hok
  · exact isDirectory_of_makeEach hok
  · cases hok

/-! ### Writing by way of the neighbour -/

theorem obstacle?_eq_none_iff :
    tree.obstacle? path = none ↔ path.place.isUsable = true ∧ path.place.isShort = true ∧
      path.wantsDirectory = false ∧ tree.isDirectory path.place = false ∧
      tree.isDirectory path.place.parent = true := by
  unfold obstacle?
  cases path.place.isUsable <;> cases path.place.isShort <;> cases path.wantsDirectory <;>
    cases tree.isDirectory path.place <;> cases tree.isDirectory path.place.parent <;> simp

/-- **What a replacement does.**  Directories are made for it first.  When it fails, no more than
the neighbour has been written; when it succeeds, the neighbour has been written and moved over the
file. -/
theorem replace_cases (tree : FileTree) (path : Path) (bytes : List UInt8) :
    (∃ e after, tree.replace path bytes = (.error e, after) ∧
      Keeps [path.place.neighbour] tree after) ∨
    ∃ made, tree.makeDirectories path.place.parent = (.ok (), made) ∧
      made.isDirectory path.place.neighbour = false ∧
      (made.put path.place.neighbour (.file bytes)).obstacle? path = none ∧
      tree.replace path bytes = (.ok (), ((made.put path.place.neighbour (.file bytes)).remove
        path.place.neighbour).put path.place (.file bytes)) := by
  have hmaking := keeps_makeDirectories [path.place.neighbour] tree path.place.parent
  have hneighbour : path.place.withEnding temporaryEnding = path.place.neighbour := rfl
  unfold replace
  cases hmake : tree.makeDirectories path.place.parent with
  | mk result made =>
    rw [hmake] at hmaking
    cases result with
    | error e => exact Or.inl ⟨e, made, rfl, hmaking⟩
    | ok _ =>
      dsimp only
      rw [hneighbour, write]
      split
      · exact Or.inl ⟨.blocked, made, rfl, hmaking⟩
      · cases hobstacle : made.obstacle? ⟨path.place.neighbour, false⟩ with
        | some e => exact Or.inl ⟨e, made, rfl, hmaking⟩
        | none =>
          have hfree : made.isDirectory path.place.neighbour = false :=
            (obstacle?_eq_none_iff.mp hobstacle).2.2.2.1
          have hwritten := hmaking.trans (keeps_put hfree (.file bytes))
          dsimp only
          rw [move, node?_put_self (ne_nil_of_not_directory hfree)]
          -- the neighbour is there to be moved, if nothing keeps it from the place of the file
          cases htarget : (made.put path.place.neighbour (.file bytes)).obstacle? path with
          | some e => exact Or.inl ⟨e, _, rfl, hwritten⟩
          | none => exact Or.inr ⟨made, rfl, hfree, htarget, rfl⟩

/-- Taking a node away leaves no directory that was not there. -/
theorem not_directory_remove (h : tree.isDirectory place = false) (other : Place) :
    (tree.remove other).isDirectory place = false := by
  by_cases hne : place = other
  · subst hne
    rw [isDirectory, node?_remove_self (ne_nil_of_not_directory h)]
    rfl
  · rw [isDirectory, node?_remove_of_ne hne]
    exact h

/-- The file has the bytes, its neighbour is gone, and all other files are as before. -/
structure Replaced (tree : FileTree) (path : Path) (bytes : List UInt8) (after : FileTree) :
    Prop where
  read : after.read path = .ok bytes
  keeps : Keeps [path.place, path.place.neighbour] tree after
  neighbour : path.place.neighbour ≠ path.place → after.node? path.place.neighbour = none

/-- **A replacement that succeeds** replaces the file. -/
theorem replaced (hok : tree.replace path bytes = (.ok (), after)) :
    tree.Replaced path bytes after := by
  rcases replace_cases tree path bytes with
    ⟨e, failed, hresult, -⟩ | ⟨made, hmake, hfree, htarget, hresult⟩
  · exact nomatch hok.symm.trans hresult
  · obtain ⟨-, rfl⟩ := Prod.mk.inj (hok.symm.trans hresult)
    obtain ⟨husable, -, hplain, hfile, -⟩ := obstacle?_eq_none_iff.mp htarget
    have hne : path.place ≠ [] := ne_nil_of_not_directory hfile
    have hneighbour : path.place.neighbour ≠ [] := ne_nil_of_not_directory hfree
    -- the neighbour is written, taken away, and put over the file
    have hwritten := keeps_put hfree (.file bytes)
    have hthere : (made.put path.place.neighbour (.file bytes)).node? path.place.neighbour
        = some (.file bytes) := node?_put_self hneighbour
    have htaken := keeps_remove (not_directory_of_file hthere)
    have hmoved := keeps_put (not_directory_remove hfile path.place.neighbour) (.file bytes)
    have hkeeps : Keeps [path.place, path.place.neighbour] made _ :=
      ((hwritten.trans htaken).mono (by simp)).trans (hmoved.mono (by simp))
    constructor
    case read =>
      rw [read_eq_ok_iff]
      refine ⟨husable, ?_, node?_put_self hne, hplain⟩
      intro place hplace
      exact hkeeps.directory place (isDirectory_of_makeDirectories hmake place hplace)
    case keeps =>
      have hmaking := keeps_makeDirectories [path.place, path.place.neighbour] tree
        path.place.parent
      rw [hmake] at hmaking
      exact hmaking.trans hkeeps
    case neighbour =>
      intro hother
      rw [node?_put_of_ne hother, node?_remove_self hneighbour]

end FileTree

end KanaKanji

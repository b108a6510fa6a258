/-
The contents of a TOML document: items, and tables that grow by paths.

A document is a table of items.  Tables come about in four ways, and how one came about
decides what may still be added to it:

* a header of its own names it once and for all;
* a longer header passes through it, and a header of its own may follow;
* a dotted key makes it, and only dotted keys may add to it;
* braces close it.

`Entries.insert` puts an item under a dotted key, and `Entries.underHeader` with
`Entries.placeTable` and `Entries.placeElement` puts the table of a header in its place.
All three answer `none` where the document contradicts itself.

Design notes: only what a reader of settings can tell apart is kept.  A float is kept
without its value, and a date and time as the text of its standard form.
-/
import KanaKanji.Text.Basic

namespace KanaKanji

namespace Toml

/-- How a table came about. -/
inductive TableOrigin
  | header
  | implied
  | dotted
  | braces
  deriving DecidableEq, Repr

/-- An item of a document. -/
inductive Item
  | text (s : Text)
  | integer (n : Int)
  | float
  | boolean (b : Bool)
  | moment (s : Text)
  | array (items : List Item)
  | table (origin : TableOrigin) (entries : List (Text × Item))
  | tables (elements : List (List (Text × Item)))

/-- The keys of a table with their items, in the order of the document. -/
abbrev Entries := List (Text × Item)

namespace Entries

/-- The item under a key. -/
def find? (entries : Entries) (key : Text) : Option Item :=
  (List.find? (fun e => e.1 == key) entries).map Prod.snd

/-- The entries with another item under a key that is there. -/
def replace (entries : Entries) (key : Text) (item : Item) : Entries :=
  entries.map fun e => if e.1 == key then (key, item) else e

/-- Change the last of the elements. -/
def changeLast (f : Entries → Option Entries) : List Entries → Option (List Entries)
  | [] => none
  | [last] => (f last).map ([·])
  | first :: rest => (changeLast f rest).map (first :: ·)

/-- Put an item under a dotted key, given as the path before the last part and the last
part.  A path may pass through tables that a header implied, and ends in a table that
dotted keys made. -/
def insert : List Text → Text → Item → Entries → Option Entries
  | [], key, item, entries =>
    if (find? entries key).isSome then none else some (entries ++ [(key, item)])
  | part :: path, key, item, entries =>
    match find? entries part with
    | none => (insert path key item []).map fun sub => entries ++ [(part, .table .dotted sub)]
    | some (.table .dotted sub) =>
      (insert path key item sub).map fun sub => replace entries part (.table .dotted sub)
    | some (.table .implied sub) =>
      if path.isEmpty then none
      else (insert path key item sub).map fun sub => replace entries part (.table .implied sub)
    | some (.tables elements) =>
      if path.isEmpty then none
      else (changeLast (insert path key item) elements).map fun elements =>
        replace entries part (.tables elements)
    | some _ => none

/-- Put a list of items under their dotted keys, in order. -/
def insertAll (pairs : List (List Text × Text × Item)) (entries : Entries) : Option Entries :=
  pairs.foldlM (fun entries p => insert p.1 p.2.1 p.2.2 entries) entries

/-- Change the table that the path of a header leads to, from an array of tables into its
last element.  Tables that are not there yet are implied. -/
def underHeader (f : Entries → Option Entries) : List Text → Entries → Option Entries
  | [], entries => f entries
  | part :: path, entries =>
    match find? entries part with
    | none => (underHeader f path []).map fun sub => entries ++ [(part, .table .implied sub)]
    | some (.table .braces _) => none
    | some (.table origin sub) =>
      (underHeader f path sub).map fun sub => replace entries part (.table origin sub)
    | some (.tables elements) =>
      (changeLast (underHeader f path) elements).map fun elements =>
        replace entries part (.tables elements)
    | some _ => none

/-- The table of a header: a new one, or one that was only implied so far. -/
def placeTable (name : Text) (fill : Entries → Option Entries) (entries : Entries) :
    Option Entries :=
  match find? entries name with
  | none => (fill []).map fun sub => entries ++ [(name, .table .header sub)]
  | some (.table .implied sub) =>
    (fill sub).map fun sub => replace entries name (.table .header sub)
  | some _ => none

/-- A further element of an array of tables. -/
def placeElement (name : Text) (fill : Entries → Option Entries) (entries : Entries) :
    Option Entries :=
  match find? entries name with
  | none => (fill []).map fun sub => entries ++ [(name, .tables [sub])]
  | some (.tables elements) =>
    (fill []).map fun sub => replace entries name (.tables (elements ++ [sub]))
  | some _ => none

end Entries

end Toml

end KanaKanji

/-
What the reader of a document expects of an item.

Each view takes an item to the value it holds, if it is of that kind.  Where a table is
expected, a date and time counts as a table with one entry under a reserved key.
-/
import KanaKanji.Toml.Item

namespace KanaKanji

namespace Toml

/-- The key under which a date and time stands where a table is expected. -/
def momentKey : Text :=
  "$__toml_private_datetime".toList

namespace Item

/-- A text. -/
def text? : Item → Option Text
  | .text s => some s
  | _ => none

/-- An integer that is not negative. -/
def natural? : Item → Option Nat
  | .integer n => if 0 ≤ n then some n.toNat else none
  | _ => none

/-- An array of texts. -/
def texts? : Item → Option (List Text)
  | .array items => items.mapM text?
  | _ => none

/-- A table. -/
def entries? : Item → Option Entries
  | .table _ entries => some entries
  | .moment s => some [(momentKey, .text s)]
  | _ => none

/-- A table whose items have one view. -/
def mapping? {α : Type} (view : Item → Option α) (item : Item) : Option (List (Text × α)) :=
  item.entries?.bind fun entries => entries.mapM fun e => (view e.2).map fun a => (e.1, a)

/-- The item can stand for a record: a table by the names of the fields, or an array by
their order. -/
def isRecord : Item → Bool
  | .array _ => true
  | .table _ _ => true
  | .moment _ => true
  | _ => false

/-- A field of a record, by its name in a table and by its place in an array. -/
def field? (item : Item) (place : Nat) (name : Text) : Option Item :=
  match item with
  | .array items => items[place]?
  | item => item.entries?.bind fun entries => Entries.find? entries name

end Item

/-- A field that may be absent, and then has a value of its own.  A field that is there has
to have the view. -/
def orDefault? {α : Type} (view : Item → Option α) (absent : α) : Option Item → Option α
  | none => some absent
  | some item => view item

end Toml

end KanaKanji

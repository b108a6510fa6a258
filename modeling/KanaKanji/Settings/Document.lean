/-
Settings from the text of a document.

A document has a table `limits` with both of its numbers, and may have a table
`conversion`, whose fields are optional, and a table `keymap`.  Other tables and fields
do not count.
-/
import KanaKanji.Settings.Basic
import KanaKanji.Toml.Document
import KanaKanji.Toml.View

namespace KanaKanji

namespace SettingsDocument

open Toml (Item Entries orDefault?)

/-- The two numbers of the table `limits`. -/
def limits? (item : Item) : Option (Nat × Nat) := do
  let depth ← (item.field? 0 "max_registration_depth".toList).bind Item.natural?
  let length ← (item.field? 1 "max_composition_length".toList).bind Item.natural?
  some (depth, length)

/-- The fields of the table `conversion`. -/
def conversion? (item : Item) : Option (List Text × Nat) :=
  if item.isRecord then do
    let keywords ← orDefault? Item.texts? builtin.autoStartKeywords
      (item.field? 0 "auto_start_keywords".toList)
    let completions ← orDefault? Item.natural? builtin.maxCompletions
      (item.field? 1 "max_completions".toList)
    some (keywords, completions)
  else none

/-- What the table of a document says. -/
def ofEntries? (entries : Entries) : Option SettingsDocument := do
  let (depth, length) ← (Entries.find? entries "limits".toList).bind limits?
  let (keywords, completions) ← orDefault? conversion?
    (builtin.autoStartKeywords, builtin.maxCompletions)
    (Entries.find? entries "conversion".toList)
  let bindings ← orDefault? (Item.mapping? Item.texts?) []
    (Entries.find? entries "keymap".toList)
  some { maxRegistrationDepth := depth
         maxCompositionLength := length
         autoStartKeywords := keywords
         maxCompletions := completions
         bindings := Index.ofList bindings }

/-- What the text of a document says. -/
def ofText? (s : Text) : Option SettingsDocument :=
  (Toml.document? s).bind ofEntries?

end SettingsDocument

/-- The settings of the text of a document. -/
def Settings.ofText (s : Text) : Except SettingsError Settings :=
  match SettingsDocument.ofText? s with
  | some document => document.settings
  | none => .error .unreadable

end KanaKanji

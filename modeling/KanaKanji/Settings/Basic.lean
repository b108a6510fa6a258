/-
Settings of the engine, and the values they take from a document.

A `SettingsDocument` holds what a document says, with commands and keys still by name and
each command at most once.  `SettingsDocument.settings` checks it and puts the keys in place
of the built-in ones, one command at a time.
-/
import KanaKanji.Key.Notation
import KanaKanji.Settings.Keymap
import KanaKanji.Text.Index
import KanaKanji.Text.Quoted

namespace KanaKanji

/-! ### Settings -/

/-- The settings of an engine. -/
structure Settings where
  /-- How many registrations may be open inside one another. -/
  maxRegistrationDepth : Nat
  /-- The characters after which a composition is committed as kana. -/
  maxCompositionLength : Nat
  /-- Kana that, typed at the end of a reading, convert the reading in front of them. -/
  autoStartKeywords : List Text
  /-- The most readings that completion offers. -/
  maxCompletions : Nat
  keymap : Keymap

namespace Settings

/-- The keyword that a text ends with; of several the first in the list. -/
def autoStartKeyword? (settings : Settings) (s : Text) : Option Text :=
  settings.autoStartKeywords.find? fun keyword => keyword.isSuffixOf s

end Settings

/-! ### What can be wrong with a document -/

/-- The numbers that have to be positive. -/
inductive PositiveField
  | maxRegistrationDepth
  | maxCompositionLength
  | maxCompletions
  deriving DecidableEq, Repr

/-- Where a number stands in a document. -/
def PositiveField.name : PositiveField → Text
  | maxRegistrationDepth => "limits.max_registration_depth".toList
  | maxCompositionLength => "limits.max_composition_length".toList
  | maxCompletions => "conversion.max_completions".toList

/-- Why a document gives no settings. -/
inductive SettingsError
  | unreadable
  | notPositive (field : PositiveField)
  | emptyKeyword
  | unknownCommand (name : Text)
  | badKey (command key : Text) (reason : KeyError)
  deriving DecidableEq, Repr

namespace SettingsError

/-- A value that a field cannot take, in words. -/
def invalidValue (field reason : Text) : Text :=
  "invalid value for ".toList ++ field ++ ": ".toList ++ reason

/-- The error in words. -/
def message : SettingsError → Text
  | unreadable => "TOML parse error".toList
  | notPositive field => invalidValue field.name "must be positive".toList
  | emptyKeyword =>
    invalidValue "conversion.auto_start_keywords".toList "empty keyword".toList
  | unknownCommand name => invalidValue ("keymap.".toList ++ name) "unknown command".toList
  | badKey command key reason =>
    "invalid key ".toList ++ Text.quoted key ++ " for keymap.".toList ++ command
      ++ ": ".toList ++ reason.message

end SettingsError

/-! ### Keys by name -/

/-- A command with its keys, all by name. -/
abbrev Binding := Text × List Text

/-- The events of the notations under a command's name, or the first that is none. -/
def keysOfNotations (command : Text) : List Text → Except SettingsError (List KeyEvent)
  | [] => .ok []
  | notationText :: rest =>
    match KeyEvent.ofNotation notationText with
    | .error reason => .error (.badKey command notationText reason)
    | .ok key => (keysOfNotations command rest).map (key :: ·)

/-- The keymap with the keys of these commands in place of their keys. -/
def Keymap.override (keymap : Keymap) : List Binding → Except SettingsError Keymap
  | [] => .ok keymap
  | (name, notations) :: rest =>
    match Command.ofName? name with
    | none => .error (.unknownCommand name)
    | some command =>
      match keysOfNotations name notations with
      | .error e => .error e
      | .ok keys => (keymap.set command keys).override rest

/-! ### Documents -/

/-- What a document says, with commands and keys by name. -/
structure SettingsDocument where
  maxRegistrationDepth : Nat
  maxCompositionLength : Nat
  autoStartKeywords : List Text
  maxCompletions : Nat
  bindings : Index (List Text)
  deriving DecidableEq

namespace SettingsDocument

/-- The built-in keys. -/
def builtinBindings : List Binding :=
  [("convert".toList, ["space".toList]),
   ("next_candidate".toList, ["space".toList]),
   ("previous_candidate".toList, ["x".toList]),
   ("commit".toList, ["Return".toList, "C-j".toList, "C-m".toList]),
   ("cancel".toList, ["C-g".toList, "Escape".toList]),
   ("delete".toList, ["BackSpace".toList, "C-h".toList]),
   ("purge_candidate".toList, ["X".toList]),
   ("register_word".toList, ["C-r".toList]),
   ("abbreviation".toList, ["/".toList]),
   ("toggle_katakana".toList, ["q".toList]),
   ("ascii_mode".toList, ["l".toList]),
   ("zenkaku_mode".toList, ["L".toList]),
   ("hiragana_mode".toList, ["C-j".toList]),
   ("begin_composition".toList, ["Q".toList]),
   ("complete".toList, ["Tab".toList]),
   ("previous_completion".toList, ["S-Tab".toList])]

/-- The built-in values. -/
def builtin : SettingsDocument where
  maxRegistrationDepth := 4
  maxCompositionLength := 100
  autoStartKeywords := ["。".toList, "、".toList, "」".toList, "』".toList]
  maxCompletions := 32
  bindings := Index.ofList builtinBindings

theorem override_builtinBindings_isOk :
    (Keymap.empty.override builtinBindings).isOk = true := by decide +kernel

end SettingsDocument

/-- The built-in keymap. -/
def Keymap.builtin : Keymap :=
  ((Keymap.empty.override SettingsDocument.builtinBindings).toOption).getD Keymap.empty

namespace SettingsDocument

/-- What is wrong with the numbers and keywords of a document, first things first. -/
def fault? (document : SettingsDocument) : Option SettingsError :=
  if document.maxRegistrationDepth = 0 then some (.notPositive .maxRegistrationDepth)
  else if document.maxCompositionLength = 0 then some (.notPositive .maxCompositionLength)
  else if document.maxCompletions = 0 then some (.notPositive .maxCompletions)
  else if document.autoStartKeywords.any List.isEmpty then some .emptyKeyword
  else none

/-- The settings of a document.  Commands that it does not list keep their built-in keys. -/
def settings (document : SettingsDocument) : Except SettingsError Settings :=
  match document.fault? with
  | some e => .error e
  | none =>
    (Keymap.builtin.override document.bindings.items).map fun keymap =>
      { maxRegistrationDepth := document.maxRegistrationDepth
        maxCompositionLength := document.maxCompositionLength
        autoStartKeywords := document.autoStartKeywords
        maxCompletions := document.maxCompletions
        keymap := keymap }

end SettingsDocument

/-- The built-in settings. -/
def Settings.builtin : Settings where
  maxRegistrationDepth := SettingsDocument.builtin.maxRegistrationDepth
  maxCompositionLength := SettingsDocument.builtin.maxCompositionLength
  autoStartKeywords := SettingsDocument.builtin.autoStartKeywords
  maxCompletions := SettingsDocument.builtin.maxCompletions
  keymap := Keymap.builtin

end KanaKanji

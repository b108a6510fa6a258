/-
The built-in settings, as values and as the document that hosts can show.

`SettingsDocument.ofText?_builtinText` says that the two agree.
-/
import KanaKanji.Settings.Document

namespace KanaKanji

namespace SettingsDocument

/-- The lines of the built-in document. -/
def builtinLines : List String :=
  ["# Engine settings.",
   "#",
   "# [keymap] binds engine commands to keys. Keys use the same notation as the",
   "# key-sequence parser: single characters, \"space\", named keys such as",
   "# \"Return\" or \"BackSpace\", and C-/M-/A- prefixes for modifiers.",
   "# Commands left out of a custom document keep the bindings below.",
   "",
   "[keymap]",
   "convert = [\"space\"]",
   "next_candidate = [\"space\"]",
   "previous_candidate = [\"x\"]",
   "commit = [\"Return\", \"C-j\", \"C-m\"]",
   "cancel = [\"C-g\", \"Escape\"]",
   "delete = [\"BackSpace\", \"C-h\"]",
   "purge_candidate = [\"X\"]",
   "register_word = [\"C-r\"]",
   "abbreviation = [\"/\"]",
   "toggle_katakana = [\"q\"]",
   "ascii_mode = [\"l\"]",
   "zenkaku_mode = [\"L\"]",
   "hiragana_mode = [\"C-j\"]",
   "begin_composition = [\"Q\"]",
   "complete = [\"Tab\"]",
   "previous_completion = [\"S-Tab\"]",
   "",
   "[limits]",
   "# How many registrations may be nested inside one another.",
   "max_registration_depth = 4",
   "# A composing segment this long is committed as kana.",
   "max_composition_length = 100",
   "",
   "[conversion]",
   "# Typing one of these at the end of a reading converts the reading and",
   "# keeps the keyword after the chosen word.",
   "auto_start_keywords = [\"。\", \"、\", \"」\", \"』\"]",
   "# Readings offered by Tab completion.",
   "max_completions = 32"]

/-- The built-in document. -/
def builtinText : Text :=
  builtinLines.flatMap fun line => line.toList ++ ['\n']

/-- Reading the built-in document gives the built-in values. -/
theorem ofText?_builtinText : ofText? builtinText = some builtin := by decide +kernel

end SettingsDocument

end KanaKanji

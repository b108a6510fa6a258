/-
The commands that keys can be bound to.
-/
import KanaKanji.Text.Basic

namespace KanaKanji

/-- A command of the engine. -/
inductive Command
  | convert
  | nextCandidate
  | previousCandidate
  | commit
  | cancel
  | delete
  | purgeCandidate
  | registerWord
  | abbreviation
  | toggleKatakana
  | asciiMode
  | zenkakuMode
  | hiraganaMode
  | beginComposition
  | complete
  | previousCompletion
  deriving DecidableEq, Repr

namespace Command

/-- All commands, in the order in which they are listed. -/
def all : List Command :=
  [convert, nextCandidate, previousCandidate, commit, cancel, delete, purgeCandidate,
   registerWord, abbreviation, toggleKatakana, asciiMode, zenkakuMode, hiraganaMode,
   beginComposition, complete, previousCompletion]

theorem mem_all (c : Command) : c ∈ all := by
  cases c <;> decide

instance (P : Command → Prop) [DecidablePred P] : Decidable (∀ c, P c) :=
  decidable_of_iff (∀ c ∈ all, P c) ⟨fun h c => h c c.mem_all, fun h c _ => h c⟩

/-- The name of a command in a keymap. -/
def name : Command → Text
  | convert => "convert".toList
  | nextCandidate => "next_candidate".toList
  | previousCandidate => "previous_candidate".toList
  | commit => "commit".toList
  | cancel => "cancel".toList
  | delete => "delete".toList
  | purgeCandidate => "purge_candidate".toList
  | registerWord => "register_word".toList
  | abbreviation => "abbreviation".toList
  | toggleKatakana => "toggle_katakana".toList
  | asciiMode => "ascii_mode".toList
  | zenkakuMode => "zenkaku_mode".toList
  | hiraganaMode => "hiragana_mode".toList
  | beginComposition => "begin_composition".toList
  | complete => "complete".toList
  | previousCompletion => "previous_completion".toList

/-- The command of a name. -/
def ofName? (s : Text) : Option Command :=
  all.find? fun c => c.name == s

theorem ofName?_name (c : Command) : ofName? c.name = some c := by
  cases c <;> decide

theorem name_of_ofName? {s : Text} {c : Command} (h : ofName? s = some c) : c.name = s := by
  simpa using List.find?_some h

end Command

end KanaKanji

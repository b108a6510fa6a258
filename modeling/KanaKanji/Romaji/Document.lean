/-
Romaji tables as documents.

A document has a table `mappings` of keys with their kana; other tables in it do not
count.  `RomajiTable.ofDocument` reads one, `RomajiTable.documentText` writes one, and
`RomajiTable.builtinDocument` is the document of the built-in table.
-/
import KanaKanji.Romaji.Builtin
import KanaKanji.Toml.Document
import KanaKanji.Toml.View

namespace KanaKanji

namespace RomajiTable

/-! ### Reading -/

/-- The mappings of a document. -/
def mappings? (document : Toml.Entries) : Option (List (Text × Text)) :=
  (Toml.Entries.find? document "mappings".toList).bind (Toml.Item.mapping? Toml.Item.text?)

/-- The table of a document. -/
def ofDocument (s : Text) : Except TableError RomajiTable :=
  match (Toml.document? s).bind mappings? with
  | some mappings => ofMappings mappings
  | none => .error .unreadable

/-! ### Writing -/

/-- A key as a document writes it: between quotes unless it has only letters and digits. -/
def keyText (key : Text) : Text :=
  if key.all Char.isAlphanum then key else Toml.quoteText key

/-- A rule on a line of its own. -/
def ruleLine (rule : Text × Text) : Text :=
  keyText rule.1 ++ " = ".toList ++ Toml.quoteText rule.2 ++ ['\n']

/-- The document of a table, with two lines of comment before the rules. -/
def documentText (table : RomajiTable) : Text :=
  "# Romaji to hiragana mappings.\n".toList
    ++ "# Keys are ASCII key sequences, values the kana they produce.\n\n".toList
    ++ "[mappings]\n".toList ++ table.rules.items.flatMap ruleLine

/-- The document of the built-in table. -/
def builtinDocument : Text :=
  builtin.documentText

end RomajiTable

end KanaKanji

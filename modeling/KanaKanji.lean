import KanaKanji.Dictionary.Snapshot
import KanaKanji.Host.Engine
import KanaKanji.Key.Notation
import KanaKanji.Numeral
import KanaKanji.Proofs.Dictionary.Writing
import KanaKanji.Proofs.Session.Cancel
import KanaKanji.Proofs.Session.ForcedCommit
import KanaKanji.Proofs.Session.GoingBack
import KanaKanji.Proofs.Session.KeywordStart
import KanaKanji.Proofs.Session.Registration
import KanaKanji.Proofs.Session.TypedText
import KanaKanji.Proofs.Session.Unconsumed
import KanaKanji.Romaji.Document
import KanaKanji.Session.Context
import KanaKanji.Settings.Builtin
import KanaKanji.Proofs.Session.Writes
import KanaKanji.Proofs.Dictionary.Completions
import KanaKanji.Proofs.Dictionary.Headword
import KanaKanji.Proofs.Session.Shown
import KanaKanji.Proofs.Session.WriteBounds
import KanaKanji.Proofs.Session.Learning
import KanaKanji.Proofs.Session.CompletedReading
import KanaKanji.Proofs.Session.Inflection
import KanaKanji.Proofs.Text.Utf8
import KanaKanji.Proofs.Dictionary.Tidy
import KanaKanji.Proofs.Dictionary.Spelling
import KanaKanji.Proofs.Dictionary.History
import KanaKanji.Proofs.Dictionary.Restoring
import KanaKanji.Proofs.Dictionary.Merge
import KanaKanji.Proofs.Session.Sharing
import KanaKanji.Proofs.Dictionary.Limit
import KanaKanji.Proofs.Romaji.Pieces
import KanaKanji.Proofs.Romaji.Syllables
import KanaKanji.Proofs.Session.KatakanaDisplay
import KanaKanji.Proofs.Session.Calls
import KanaKanji.Proofs.Romaji.Lengths
import KanaKanji.Proofs.Session.Bounded
import KanaKanji.Proofs.Dictionary.Alphabet
import KanaKanji.Proofs.Session.Alphabet
import KanaKanji.Proofs.Host.Files
import KanaKanji.Proofs.Host.Requests
import KanaKanji.Proofs.Host.Saving
import KanaKanji.Proofs.Host.Configuration
import KanaKanji.Proofs.Dictionary.Stores
import KanaKanji.Proofs.Dictionary.Promotion
import KanaKanji.Proofs.Session.OkuriTyping
import KanaKanji.Proofs.Numeral.Placeholders
import KanaKanji.Proofs.Session.Stepping
import KanaKanji.Proofs.Numeral.KanjiNumeral
import KanaKanji.Proofs.Key.Grammar
import KanaKanji.Proofs.Key.Showing
import KanaKanji.Session.Machine
import KanaKanji.Session.Turn
import KanaKanji.Proofs.Session.Machines
import KanaKanji.Proofs.Session.MachineRuns

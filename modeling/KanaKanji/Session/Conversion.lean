/-
Looking a reading up: what a conversion or a completion leads to.

A conversion leads to the candidates for its key.  Without candidates a registration opens,
and where no more may be open, the key is edited again.  A completion leads to the words
whose reading starts with what was typed, and without any it leads nowhere.
-/
import KanaKanji.Session.Outcome

namespace KanaKanji

namespace Situation

variable (s : Situation)

/-- A fresh registration for a key. -/
def registration (key : ConversionKey) (origin : Origin) : Segment :=
  .registering key origin [] .idle

/-- What the conversion of a key leads to. -/
def conversion (key : ConversionKey) (origin : Origin) : Segment :=
  match Selection.first? key origin (s.dictionaries.candidates key) with
  | some selection => .selecting selection
  | none =>
    if s.canRegister then registration key origin
    else .editing key origin

/-- What the completion of a reading leads to; `stay` if there is nothing. -/
def completion (stay : Segment) (yomi : Text) (origin : Origin) : Segment :=
  match Selection.first? { yomi := yomi } origin
      (s.dictionaries.completions yomi s.settings.maxCompletions) with
  | some selection => .completing selection
  | none => stay

end Situation

end KanaKanji

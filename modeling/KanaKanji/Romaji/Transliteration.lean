/-
Transliteration: romaji keys become kana, one key at a time.

The keys that have not resolved yet are the tail.  `RomajiTable.feed` takes the tail and
the next key to a `Step`: the text that leaves the tail and the new tail.  When the key
cannot continue the tail, the tail resolves first and the key starts afresh:

* a doubled consonant is っ and keeps one of the two;
* a held `n` is ん;
* a tail that is itself a key is its kana;
* anything else leaves as it was typed.

`RomajiTable.flush` resolves a tail that no key follows, `RomajiTable.convert` runs over
a whole text, and `RomajiTable.feedSplit` tells what the old tail gave from what the new
key began.
-/
import KanaKanji.Romaji.Table

namespace KanaKanji

/-! ### Steps -/

/-- How a key resolved against the tail. -/
inductive StepKind
  /-- Kana were produced. -/
  | complete
  /-- The tail grew. -/
  | incomplete
  /-- Text left the tail as it was typed. -/
  | rejected
  deriving DecidableEq, Repr

/-- What one key does: the text that leaves the tail, in order, and the new tail. -/
structure Step where
  kind : StepKind
  emitted : Text
  tail : Text
  deriving DecidableEq, Repr

namespace Step

/-- The step with text before it that left the tail earlier.  A step that was rejected
stays so, and a literal text makes it so. -/
def after (step : Step) (head : Text) (kind : StepKind) : Step where
  kind := if step.kind = .rejected then .rejected else kind
  emitted := head ++ step.emitted
  tail := step.tail

end Step

/-- The five vowels of romaji. -/
def isVowel (c : Char) : Bool :=
  c == 'a' || c == 'i' || c == 'u' || c == 'e' || c == 'o'

/-- A letter that doubles into っ: no vowel, and no `n`, whose double is ん. -/
def doubles (c : Char) : Bool :=
  c.isAlpha && c != 'n' && !isVowel c

namespace RomajiTable

variable (table : RomajiTable)

/-! ### Feeding keys -/

/-- A key with no tail before it. -/
def start (key : Char) : Step :=
  match table.lookup [key] with
  | .whole kana => ⟨.complete, kana, []⟩
  | .stem => ⟨.incomplete, [], [key]⟩
  | .wholeAndStem _ => ⟨.incomplete, [], [key]⟩
  | .nothing => ⟨.rejected, [key], []⟩

/-- A key that cannot continue a tail: the tail resolves and the key starts afresh. -/
def restart (tail : Text) (key : Char) : Step :=
  if tail = [key] ∧ doubles key = true then ⟨.complete, ['っ'], [key]⟩
  else if tail = ['n'] then (table.start key).after ['ん'] .complete
  else match table.lookup tail with
    | .wholeAndStem kana => (table.start key).after kana .complete
    | _ => (table.start key).after tail .rejected

/-- The next key, in lower case, against the tail. -/
def feed (tail : Text) (key : Char) : Step :=
  let key := key.toLower
  if tail.isEmpty then table.start key
  else match table.lookup (tail ++ [key]) with
    | .whole kana => ⟨.complete, kana, []⟩
    | .stem => ⟨.incomplete, [], tail ++ [key]⟩
    | .wholeAndStem _ => ⟨.incomplete, [], tail ++ [key]⟩
    | .nothing => table.restart tail key

/-- What the old tail gave, and the step that the key began.  A key that continues the
tail takes all of it. -/
def feedSplit (tail : Text) (key : Char) : Text × Step :=
  let whole := table.feed tail key
  if tail.isEmpty || table.lookup (tail ++ [key.toLower]) != .nothing then ([], whole)
  else
    let fresh := table.start key.toLower
    let head := (Text.dropEnding? whole.emitted fresh.emitted).getD whole.emitted
    (head, ⟨fresh.kind, fresh.emitted, whole.tail⟩)

/-! ### The end of the text -/

/-- What a tail resolves to when no key follows. -/
def flush (tail : Text) : Text :=
  if tail = ['n'] then ['ん']
  else match table.lookup tail with
    | .whole kana => kana
    | .wholeAndStem kana => kana
    | _ => tail

/-- Feed the keys of a text from a tail on: the text that left the tail, and the tail. -/
def feedAll (tail : Text) : Text → Text × Text
  | [] => ([], tail)
  | key :: keys =>
    let step := table.feed tail key
    let (emitted, last) := feedAll step.tail keys
    (step.emitted ++ emitted, last)

/-- The steps of the keys of a text from a tail on. -/
def steps (tail : Text) : Text → List Step
  | [] => []
  | key :: keys =>
    let step := table.feed tail key
    step :: steps step.tail keys

/-- A whole text in kana. -/
def convert (romaji : Text) : Text :=
  let (emitted, tail) := table.feedAll [] romaji
  emitted ++ table.flush tail

end RomajiTable

end KanaKanji

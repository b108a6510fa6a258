/-
Segments: what a session is in the middle of.

A segment is typed directly, composed as a reading, or written as an abbreviation; its
reading is then converted or completed by choosing among candidates; and a word that the
dictionaries lack is registered, while a segment of its own spells it.  So segments lie
inside one another, and the innermost one receives the keys.

`Segment.preedit` shows a segment with its marks, and `Segment.buffer`, `Segment.selection?`
and `Segment.depth` tell of the innermost one.

Design notes: each state carries just the data that it needs, and a selection has a current
candidate.  In `Machine` the buffer stands beside the state and may hold anything; that the two
kinds do the same is proved of them, not built into them.
-/
import KanaKanji.Dictionary.Entry
import KanaKanji.Session.Buffer
import KanaKanji.Session.InputMode

namespace KanaKanji

/-! ### Choosing among candidates -/

/-- Where a conversion started from; going back leads there. -/
inductive Origin
  | kana
  | abbreviation
  deriving DecidableEq, Repr

/-- Candidates for a key, one of them current. -/
structure Selection where
  key : ConversionKey
  origin : Origin
  candidates : List Candidate
  index : Nat
  index_lt : index < candidates.length
  deriving DecidableEq

namespace Selection

/-- The first of some candidates, if there are any. -/
def first? (key : ConversionKey) (origin : Origin) : List Candidate → Option Selection
  | [] => none
  | c :: cs => some ⟨key, origin, c :: cs, 0, Nat.zero_lt_succ _⟩

/-- The current candidate. -/
def current (s : Selection) : Candidate :=
  s.candidates.get ⟨s.index, s.index_lt⟩

theorem length_pos (s : Selection) : 0 < s.candidates.length :=
  Nat.lt_of_le_of_lt (Nat.zero_le _) s.index_lt

/-- So many steps forward, or back if negative, around the list. -/
def step (s : Selection) (steps : Int) : Selection :=
  { s with
    index := ((s.index + steps) % s.candidates.length).toNat
    index_lt := by
      have hpos : (0 : Int) < s.candidates.length := by exact_mod_cast s.length_pos
      have hlt := Int.emod_lt_of_pos (s.index + steps) hpos
      have hge := Int.emod_nonneg (s.index + steps) (Int.ne_of_gt hpos)
      omega }

/-- The next candidate; after the last comes the first. -/
def next (s : Selection) : Selection :=
  s.step 1

/-- The candidate before; before the first comes the last. -/
def previous (s : Selection) : Selection :=
  s.step (-1)

end Selection

/-! ### Segments -/

/-- What a session is in the middle of. -/
inductive Segment
  /-- Kana are committed at once; only the romaji tail waits. -/
  | direct (tail : Text)
  /-- A reading is typed. -/
  | composing (buffer : Buffer)
  /-- A reading is typed in letters that stay as they are. -/
  | abbreviation (letters : Text)
  /-- A candidate for the reading is chosen. -/
  | selecting (selection : Selection)
  /-- A word is chosen whose reading starts with what was typed. -/
  | completing (selection : Selection)
  /-- A word for the reading is spelled out; `text` has been committed to it so far. -/
  | registering (key : ConversionKey) (origin : Origin) (text : Text) (inner : Segment)
  deriving DecidableEq

/-- The kinds of segments, as hosts see them. -/
inductive Mode
  | direct
  | composing
  | candidateSelection
  | completion
  | registration
  | abbreviation
  deriving DecidableEq, Repr

namespace Segment

/-- Nothing is going on. -/
def idle : Segment := direct []

/-- The kind of the segment. -/
def mode : Segment → Mode
  | direct _ => .direct
  | composing _ => .composing
  | abbreviation _ => .abbreviation
  | selecting _ => .candidateSelection
  | completing _ => .completion
  | registering _ _ _ _ => .registration

/-- The segment that receives the keys. -/
def innermost : Segment → Segment
  | registering _ _ _ inner => inner.innermost
  | segment => segment

/-- How many registrations are open inside one another. -/
def depth : Segment → Nat
  | registering _ _ _ inner => inner.depth + 1
  | _ => 0

/-- The text being typed in the innermost segment. -/
def buffer (segment : Segment) : Buffer :=
  match segment.innermost with
  | direct tail => { tail := tail }
  | composing b => b
  | abbreviation letters => { kana := letters }
  | _ => .empty

/-- The candidates of the innermost segment, if one is being chosen. -/
def selection? (segment : Segment) : Option Selection :=
  match segment.innermost with
  | selecting s => some s
  | completing s => some s
  | _ => none

/-- The segment in which a key is edited again. -/
def editing (key : ConversionKey) : Origin → Segment
  | .kana => composing (Buffer.ofKey key)
  | .abbreviation => abbreviation key.text

/-! ### Preedit -/

/-- Okurigana behind their mark. -/
def markedOkuri : Option Text → Text
  | some okuri => '*' :: okuri
  | none => []

/-- The text that shows the segment while it is worked on: ▽ marks a reading, ▼ a
conversion, ■ a completion, and a registration shows its reading and, in brackets, the
word so far. -/
def preedit (mode : InputMode) : Segment → Text
  | direct tail => tail
  | composing b =>
    '▽' :: mode.render b.kana ++ markedOkuri (b.okuri.map mode.render) ++ b.tail
  | abbreviation letters => '▽' :: letters
  | selecting s => '▼' :: s.current.output
  | completing s => '■' :: s.current.output
  | registering key _ text inner =>
    '▼' :: key.yomi ++ markedOkuri (if key.okuri.isEmpty then none else some key.okuri)
      ++ key.suffix ++ '【' :: text ++ preedit mode inner ++ ['】']

end Segment

end KanaKanji

/-
Machines: segments as they are kept.

A machine has a buffer and, beside it, a state.  What handles a key changes the one and the other by
themselves, so that there are machines that no session ever has: a text has been left in the buffer
while a candidate is chosen, or the number of the current candidate is not in the list.

`Machine.ofSegment` gives the machine of a segment, in which the two parts fit.

Design notes: a registration holds the machine inside it by its two parts, so that states are one
inductive type.
-/
import KanaKanji.Session.Segment

namespace KanaKanji

/-! ### Shortlists -/

/-- Candidates for a key and the number of the current one, in the list or not. -/
structure Shortlist where
  key : ConversionKey
  origin : Origin
  candidates : List Candidate
  index : Nat
  deriving DecidableEq

namespace Shortlist

/-- The candidate with the current number, if there is one. -/
def current? (list : Shortlist) : Option Candidate :=
  list.candidates[list.index]?

/-- So many steps forward, or back if negative, around the list; in an empty one to the front. -/
def step (list : Shortlist) (steps : Int) : Shortlist :=
  { list with
    index := if list.candidates.isEmpty then 0
      else ((list.index + steps) % list.candidates.length).toNat }

end Shortlist

/-- The shortlist of a selection. -/
def Selection.shortlist (selection : Selection) : Shortlist :=
  ⟨selection.key, selection.origin, selection.candidates, selection.index⟩

namespace Selection

theorem current?_shortlist (selection : Selection) :
    selection.shortlist.current? = some selection.current :=
  List.getElem?_eq_getElem selection.index_lt

theorem step_shortlist (selection : Selection) (steps : Int) :
    selection.shortlist.step steps = (selection.step steps).shortlist := by
  have hne : selection.candidates.isEmpty = false :=
    List.isEmpty_eq_false_iff.mpr (List.length_pos_iff.mp selection.length_pos)
  unfold Shortlist.step step shortlist
  dsimp only
  rw [hne, if_neg Bool.false_ne_true]

end Selection

/-! ### Machines -/

/-- What a machine is at, beside its buffer. -/
inductive Machine.State
  | direct
  | composing
  | abbreviation
  | selecting (list : Shortlist)
  | completing (list : Shortlist)
  /-- The word so far is `text`; the machine inside has the buffer and the state at the end. -/
  | registering (key : ConversionKey) (origin : Origin) (text : Text) (buffer : Buffer)
    (inner : Machine.State)
  deriving DecidableEq

/-- A buffer and a state. -/
structure Machine where
  buffer : Buffer
  state : Machine.State
  deriving DecidableEq

/-- The state in which a key is edited again. -/
def Origin.editing : Origin → Machine.State
  | kana => .composing
  | abbreviation => .abbreviation

namespace Machine

namespace State

/-- Nothing but romaji is typed. -/
def isDirect : State → Bool
  | direct => true
  | _ => false

/-- The kind of segment that hosts see. -/
def mode : State → Mode
  | direct => .direct
  | composing => .composing
  | abbreviation => .abbreviation
  | selecting _ => .candidateSelection
  | completing _ => .completion
  | registering _ _ _ _ _ => .registration

/-- The machine and those inside it, from the outside in. -/
def chain (buffer : Buffer) : State → List Machine
  | registering key origin text inside inner =>
    ⟨buffer, registering key origin text inside inner⟩ :: inner.chain inside
  | state => [⟨buffer, state⟩]

/-- The machine that receives the keys. -/
def innermost (buffer : Buffer) : State → Machine
  | registering _ _ _ inside inner => inner.innermost inside
  | state => ⟨buffer, state⟩

/-- How many registrations are open inside one another. -/
def depth : State → Nat
  | registering _ _ _ _ inner => inner.depth + 1
  | _ => 0

/-- The text that shows the machine while it is worked on.  There is none when a current candidate
would have to be shown that is not in its list. -/
def preedit? (mode : InputMode) (buffer : Buffer) : State → Option Text
  | direct => some buffer.tail
  | composing => some ('▽' :: mode.render buffer.kana
      ++ Segment.markedOkuri (buffer.okuri.map mode.render) ++ buffer.tail)
  | abbreviation => some ('▽' :: buffer.kana)
  | selecting list => list.current?.map fun candidate => '▼' :: candidate.output
  | completing list => list.current?.map fun candidate => '■' :: candidate.output
  | registering key _ text inside inner => (inner.preedit? mode inside).map fun shown =>
      '▼' :: key.yomi ++ Segment.markedOkuri (if key.okuri.isEmpty then none else some key.okuri)
        ++ key.suffix ++ '【' :: text ++ shown ++ ['】']

end State

variable (m : Machine)

/-- Nothing is going on. -/
def idle : Machine := ⟨.empty, .direct⟩

/-- The machine and those inside it, from the outside in. -/
def chain : List Machine :=
  m.state.chain m.buffer

/-- The machine that receives the keys. -/
def innermost : Machine :=
  m.state.innermost m.buffer

/-- How many registrations are open inside one another. -/
def depth : Nat :=
  m.state.depth

/-- The text that shows the machine, if it can be shown. -/
def preedit? (mode : InputMode) : Option Text :=
  m.state.preedit? mode m.buffer

/-! ### Changing a part -/

/-- The machine with nothing in the buffer. -/
def clear : Machine :=
  { m with buffer := .empty }

/-- The machine in another state, with the same buffer. -/
def enter (state : State) : Machine :=
  { m with state := state }

/-! ### Machines of segments -/

/-- The machine of a segment. -/
def ofSegment : Segment → Machine
  | .direct tail => ⟨{ tail := tail }, .direct⟩
  | .composing b => ⟨b, .composing⟩
  | .abbreviation letters => ⟨{ kana := letters }, .abbreviation⟩
  | .selecting selection => ⟨.empty, .selecting selection.shortlist⟩
  | .completing selection => ⟨.empty, .completing selection.shortlist⟩
  | .registering key origin text inner =>
    ⟨.empty, .registering key origin text (ofSegment inner).buffer (ofSegment inner).state⟩

theorem depth_ofSegment (segment : Segment) : (ofSegment segment).depth = segment.depth := by
  induction segment with
  | registering key origin text inner ih => exact congrArg (· + 1) ih
  | _ => rfl

theorem mode_ofSegment (segment : Segment) : (ofSegment segment).state.mode = segment.mode := by
  cases segment <;> rfl

theorem innermost_ofSegment (segment : Segment) :
    (ofSegment segment).innermost = ofSegment segment.innermost := by
  induction segment with
  | registering key origin text inner ih => exact ih
  | _ => rfl

/-- The buffer of the machine that receives the keys is what is typed in the segment. -/
theorem buffer_innermost_ofSegment (segment : Segment) :
    (ofSegment segment).innermost.buffer = segment.buffer := by
  rw [innermost_ofSegment, Segment.buffer]
  have hinner : ∀ key origin text inner,
      segment.innermost ≠ .registering key origin text inner := by
    intro key origin text inner
    induction segment with
    | registering key origin text inner ih => exact ih
    | _ => exact nofun
  cases hs : segment.innermost with
  | registering key origin text inner => exact absurd hs (hinner key origin text inner)
  | _ => rfl

/-- The machine of a segment can be shown, and is shown as the segment. -/
theorem preedit?_ofSegment (mode : InputMode) (segment : Segment) :
    (ofSegment segment).preedit? mode = some (segment.preedit mode) := by
  induction segment with
  | selecting selection =>
    show selection.shortlist.current?.map _ = _
    rw [selection.current?_shortlist]
    rfl
  | completing selection =>
    show selection.shortlist.current?.map _ = _
    rw [selection.current?_shortlist]
    rfl
  | registering key origin text inner ih =>
    show ((ofSegment inner).preedit? mode).map _ = _
    rw [ih]
    rfl
  | _ => rfl

end Machine

end KanaKanji

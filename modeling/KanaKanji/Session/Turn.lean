/-
Turns: how a machine handles a key.

The functions that handle a key change the machine that they are called on and may call one another.
Any machine hands the key to the function for its state.  Direct typing calls composing for a
capital, which opens a reading; composing calls direct typing for a key that finds the reading full;
choosing a candidate calls direct typing for the next character; and a registration hands the key
on to the machine inside it.  A `Turn` is what the body of a function comes to, an effect or a call
on the machine as it then is, and `Ends` says that the turns come to an end, with which effect and
which functions entered on the way.

Design notes: a body makes one call at most, so that the functions entered are a list.  Nothing in
the bodies says that the calls come to an end.
-/
import KanaKanji.Session.Handling
import KanaKanji.Session.Machine

namespace KanaKanji

/-- A function that handles a key. -/
inductive Handler
  /-- For any machine: the key cancels it or goes to the function for its state. -/
  | any
  | direct
  | composing
  | abbreviation
  | selecting
  | completing
  | registering
  deriving DecidableEq, Repr

/-- The function for a state. -/
def Handler.ofState : Machine.State → Handler
  | .direct => direct
  | .composing => composing
  | .abbreviation => abbreviation
  | .selecting _ => selecting
  | .completing _ => completing
  | .registering _ _ _ _ _ => registering

/-- What a function leaves behind. -/
structure Effect where
  consumed : Bool
  machine : Machine
  committed : Text
  mode : InputMode
  shelf : Shelf

/-- What the body of a function comes to. -/
inductive Turn
  /-- It is done.  There is no effect when it has asked for a current candidate that is not in the
  list: then everything stops. -/
  | done (effect? : Option Effect)
  /-- It calls a function on a machine, and finishes its effect. -/
  | calls (s : Situation) (handler : Handler) (m : Machine) (finish : Effect → Effect)

namespace Effect

/-- The effect with text before what it commits. -/
def after (effect : Effect) (committed : Text) : Effect :=
  { effect with committed := committed ++ effect.committed }

/-- An effect, and then a call on the machine that it leaves. -/
def andThen (first : Effect) (s : Situation) (next : Handler) (finish : Effect → Effect) : Turn :=
  .calls { s with mode := first.mode, shelf := first.shelf } next first.machine
    fun effect => finish (effect.after first.committed)

end Effect

namespace Machine

variable (m : Machine) (s : Situation)

/-! ### Simple effects -/

/-- The key leaves the machine as it is here and commits a text. -/
def commits (committed : Text) : Effect :=
  ⟨true, m, committed, s.mode, s.shelf⟩

/-- The key leaves the machine as it is here. -/
def moves : Effect :=
  m.commits s []

/-- The key is of no use here. -/
def ignores : Effect :=
  { m.moves s with consumed := false }

/-! ### Looking up -/

/-- A key is edited again. -/
def edit (key : ConversionKey) (origin : Origin) : Machine :=
  { m with buffer := .ofKey key }.enter origin.editing

/-- A registration opens, with an idle machine inside. -/
def register (key : ConversionKey) (origin : Origin) : Machine :=
  m.clear.enter (.registering key origin [] idle.buffer idle.state)

/-- A key is converted. -/
def convert (key : ConversionKey) (origin : Origin) : Machine :=
  match s.dictionaries.candidates key with
  | c :: cs => m.clear.enter (.selecting ⟨key, origin, c :: cs, 0⟩)
  | [] => if s.canRegister then m.clear.register key origin else m.clear.edit key origin

/-- A reading is completed.  Without words that start with it nothing changes. -/
def complete (yomi : Text) (origin : Origin) : Machine :=
  match s.dictionaries.completions yomi s.settings.maxCompletions with
  | c :: cs => m.clear.enter (.completing ⟨{ yomi := yomi }, origin, c :: cs, 0⟩)
  | [] => m

/-! ### Composing a reading -/

/-- The tail is resolved as if no key followed. -/
def flush : Machine :=
  { m with buffer := m.buffer.flush s.table }

/-- The reading is converted; without a stem it is dropped. -/
def convertReading : Machine :=
  let m := m.flush s
  if m.buffer.kana.isEmpty then m.clear.enter .direct
  else m.convert s m.buffer.key .kana

/-- The reading is completed, unless okurigana have been opened. -/
def completeReading : Machine :=
  if m.buffer.okuri.isSome then m
  else
    let m := m.flush s
    m.complete s m.buffer.kana .kana

/-- The reading is committed as kana, in a form. -/
def commitReading (form : Text → Text) : Effect :=
  let m := m.flush s
  (m.clear.enter .direct).commits s (form m.buffer.text)

/-- The last character is dropped; with nothing left the machine is typed directly. -/
def pop : Machine :=
  let m := { m with buffer := m.buffer.pop }
  if m.buffer.isEmpty then m.enter .direct else m

/-- What a command key does while a reading is composed. -/
def composeCommand? (event : KeyEvent) : Option Effect :=
  if s.binds .convert event then some ((m.convertReading s).moves s)
  else if s.binds .commit event then some (m.commitReading s s.render)
  else if s.binds .delete event then some (m.pop.moves s)
  else if s.binds .complete event then some ((m.completeReading s).moves s)
  else if s.binds .toggleKatakana event then some (m.commitReading s s.mode.renderFlipped)
  else if s.binds .beginComposition event then some (m.moves s)
  else none

/-- A character is typed into the reading.  Okurigana that are complete, and a keyword at the end of
a stem that has grown, start the conversion. -/
def typeReading (c : Char) : Machine :=
  let typed := { m with buffer := m.buffer.type s.table c }
  if typed.buffer.okuriComplete then typed.convert s typed.buffer.key .kana
  else if decide (m.buffer.kana.length < typed.buffer.kana.length)
      && typed.buffer.okuri.isNone then
    match s.autoStartKey? typed.buffer with
    | some key => typed.convert s key .kana
    | none => typed
  else typed

/-- Composing.  A character that finds the reading full commits it and is typed directly. -/
def composingTurn (event : KeyEvent) : Turn :=
  match m.composeCommand? s event with
  | some effect => .done effect
  | none =>
    match event.printable with
    | none => .done (m.ignores s)
    | some c =>
      if s.isFull m.buffer then (m.commitReading s s.render).andThen s .direct id
      else .done ((m.typeReading s c).moves s)

/-! ### Typing directly -/

/-- A key in a Latin mode.  The machine is left alone. -/
def latin (event : KeyEvent) : Effect :=
  if s.binds .hiraganaMode event then { m.moves s with mode := .hiragana }
  else match event.printable with
    | none => m.ignores s
    | some c => m.commits s [s.mode.latinChar c]

/-- What is in the buffer is committed, its tail resolved. -/
def commitBuffer : Effect :=
  let m := m.flush s
  m.clear.commits s (s.render m.buffer.text)

/-- What a command key does while romaji are typed directly and the key can type a character. -/
def directCommand? (event : KeyEvent) : Option Effect :=
  let ended := m.commitBuffer s
  if s.binds .toggleKatakana event then some { ended with mode := s.mode.toggled }
  else if s.binds .asciiMode event then some { ended with mode := .ascii }
  else if s.binds .zenkakuMode event then some { ended with mode := .zenkaku }
  else if s.binds .beginComposition event then
    some { ended with machine := ended.machine.enter .composing }
  else if s.binds .abbreviation event then
    some { ended with machine := ended.machine.enter .abbreviation }
  else none

/-- A character is typed directly.  A capital opens a reading, which it is the first letter of. -/
def typeTurn (c : Char) : Turn :=
  if c.isUpper then
    let ended := m.commitBuffer s
    { ended with machine := ended.machine.enter .composing }.andThen s .composing id
  else
    let step := s.table.feed m.buffer.tail c
    .done ({ m with buffer := { m.buffer with tail := step.tail } }.commits s
      (s.render step.emitted))

/-- Direct typing outside the Latin modes. -/
def romajiTurn (event : KeyEvent) : Turn :=
  let pending := !m.buffer.tail.isEmpty
  if s.binds .cancel event then .done (some { m.clear.moves s with consumed := pending })
  else if s.binds .delete event then
    .done (some { { m with buffer := m.buffer.pop }.moves s with consumed := !m.buffer.isEmpty })
  else if s.binds .hiraganaMode event then
    .done (some { m.commitBuffer s with
      consumed := pending || s.mode != .hiragana, mode := .hiragana })
  else if s.binds .commit event then .done (some { m.commitBuffer s with consumed := pending })
  else match event.printable with
    | none => .done (m.ignores s)
    | some c =>
      match m.directCommand? s event with
      | some effect => .done effect
      | none => m.typeTurn s c

/-- Direct typing. -/
def directTurn (event : KeyEvent) : Turn :=
  if s.mode.isLatin then .done (m.latin s event) else m.romajiTurn s event

/-! ### Writing an abbreviation -/

/-- Writing an abbreviation.  Its letters are the stem of the buffer. -/
def abbreviate (event : KeyEvent) : Effect :=
  let letters := m.buffer.kana
  if s.binds .convert event then
    (if letters.isEmpty then m else m.convert s { yomi := letters } .abbreviation).moves s
  else if s.binds .complete event then
    (if letters.isEmpty then m else m.complete s letters .abbreviation).moves s
  else if s.binds .commit event then (m.clear.enter .direct).commits s letters
  else if s.binds .delete event then m.pop.moves s
  else match event.printable with
    | none => m.ignores s
    | some c => { m with buffer := { m.buffer with kana := letters ++ [c] } }.moves s

/-! ### Choosing -/

/-- The current candidate is committed and learned. -/
def commitCurrent? (list : Shortlist) : Option Effect :=
  list.current?.map fun candidate =>
    { (m.clear.enter .direct).commits s candidate.output with
      shelf := s.registered candidate.key.headword candidate.entry }

/-- The current candidate is purged. -/
def purgeCurrent? (list : Shortlist) : Option Effect :=
  list.current?.map fun candidate =>
    { (m.clear.enter .direct).moves s with
      shelf := (s.shelf.purge s.layers candidate.key.headword candidate.entry.surface).2 }

/-- A key that is no command: a character commits the current candidate and is then
typed directly. -/
def typeBehind (list : Shortlist) (event : KeyEvent) : Turn :=
  match event.printable with
  | none => .done (m.ignores s)
  | some _ =>
    match m.commitCurrent? s list with
    | none => .done none
    | some first => first.andThen s .direct fun effect => { effect with consumed := true }

/-- Choosing a candidate for a reading. -/
def selectingTurn (event : KeyEvent) : Turn :=
  match m.state with
  | .selecting list =>
    if s.binds .nextCandidate event then .done ((m.enter (.selecting (list.step 1))).moves s)
    else if s.binds .previousCandidate event then
      .done ((m.enter (.selecting (list.step (-1)))).moves s)
    else if s.binds .purgeCandidate event then .done (m.purgeCurrent? s list)
    else if s.binds .registerWord event then
      .done ((if s.canRegister then m.register list.key list.origin else m).moves s)
    else if s.binds .delete event then .done ((m.edit list.key list.origin).moves s)
    else if s.binds .commit event then .done (m.commitCurrent? s list)
    else m.typeBehind s list event
  | _ => .done (m.ignores s)

/-- Choosing a completion of a reading. -/
def completingTurn (event : KeyEvent) : Turn :=
  match m.state with
  | .completing list =>
    if s.binds .complete event then .done ((m.enter (.completing (list.step 1))).moves s)
    else if s.binds .previousCompletion event then
      .done ((m.enter (.completing (list.step (-1)))).moves s)
    else if s.binds .convert event then
      .done (list.current?.map fun candidate =>
        (m.convert s candidate.key list.origin).moves s)
    else if s.binds .delete event then .done ((m.edit list.key list.origin).moves s)
    else if s.binds .purgeCandidate event then .done (m.purgeCurrent? s list)
    else if s.binds .commit event then .done (m.commitCurrent? s list)
    else m.typeBehind s list event
  | _ => .done (m.ignores s)

/-! ### Registering a word -/

/-- The word is registered and committed; without one the reading is edited again. -/
def confirm (key : ConversionKey) (origin : Origin) (word : Text) : Effect :=
  if word.isEmpty then ((m.enter .direct).edit key origin).moves s
  else
    let entry : Entry := { surface := word }
    { (m.clear.enter .direct).commits s (Candidate.output ⟨key, entry⟩) with
      shelf := s.registered key.headword entry }

/-- What the machine inside does, as the registration sees it: what it commits goes to the word. -/
def within (key : ConversionKey) (origin : Origin) (text : Text) (inner : Effect) : Effect :=
  { inner with
    machine := m.enter (.registering key origin (text ++ inner.committed) inner.machine.buffer
      inner.machine.state)
    committed := [] }

/-- Registering a word.  While the machine inside is typed directly, some keys are for the
registration itself. -/
def registeringTurn (event : KeyEvent) : Turn :=
  match m.state with
  | .registering key origin text buffer inner =>
    if inner.isDirect && s.binds .commit event && !s.leavesLatin event then
      .done (m.confirm s key origin (text ++ s.render (buffer.flush s.table).text))
    else if inner.isDirect && s.binds .delete event && buffer.tail.isEmpty then
      .done ((m.enter (.registering key origin text.dropLast buffer inner)).moves s)
    else .calls s.nested .any ⟨buffer, inner⟩ (m.within key origin text)
  | _ => .done (m.ignores s)

/-! ### Any machine -/

/-- Any machine: what is not typed directly can be cancelled. -/
def anyTurn (event : KeyEvent) : Turn :=
  if !m.state.isDirect && s.binds .cancel event then .done ((m.clear.enter .direct).moves s)
  else .calls s (.ofState m.state) m id

/-- One turn of a function. -/
def turn (event : KeyEvent) : Handler → Turn
  | .any => m.anyTurn s event
  | .direct => m.directTurn s event
  | .composing => m.composingTurn s event
  | .abbreviation => .done (m.abbreviate s event)
  | .selecting => m.selectingTurn s event
  | .completing => m.completingTurn s event
  | .registering => m.registeringTurn s event

end Machine

/-! ### Turns that end -/

/-- The turns that start with a function on a machine end in the effect, or stop without one, and
these are the functions entered, in order. -/
inductive Ends (event : KeyEvent) :
    Situation → Handler → Machine → Option Effect → List Handler → Prop
  | done {s : Situation} {handler : Handler} {m : Machine} {effect? : Option Effect}
      (turn : m.turn s event handler = .done effect?) : Ends event s handler m effect? [handler]
  | calls {s other : Situation} {handler next : Handler} {m after : Machine}
      {finish : Effect → Effect} {effect? : Option Effect} {entered : List Handler}
      (turn : m.turn s event handler = .calls other next after finish)
      (rest : Ends event other next after effect? entered) :
      Ends event s handler m (effect?.map finish) (handler :: entered)

/-- The turns of a function can end in one way only. -/
theorem Ends.unique {event : KeyEvent} {s : Situation} {handler : Handler} {m : Machine}
    {first? second? : Option Effect} {entered others : List Handler}
    (h : Ends event s handler m first? entered) (h' : Ends event s handler m second? others) :
    first? = second? ∧ entered = others := by
  induction h generalizing second? others with
  | done hturn =>
    cases h' with
    | done hturn' =>
      rw [hturn] at hturn'
      exact ⟨Turn.done.inj hturn', rfl⟩
    | calls hturn' rest =>
      rw [hturn] at hturn'
      exact Turn.noConfusion hturn'
  | calls hturn _ ih =>
    cases h' with
    | done hturn' =>
      rw [hturn] at hturn'
      exact Turn.noConfusion hturn'
    | calls hturn' rest =>
      rw [hturn] at hturn'
      obtain ⟨rfl, rfl, rfl, rfl⟩ := Turn.calls.inj hturn'
      obtain ⟨rfl, rfl⟩ := ih rest
      exact ⟨rfl, rfl⟩

end KanaKanji

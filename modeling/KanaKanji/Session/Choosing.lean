/-
Choosing: keys that come while candidates are shown.

Commands step through the candidates, purge the current one, or go back to the reading.
Committing puts the current candidate in front of its headword in the first dictionary that
can be written to; a printable key commits too and is then typed directly.
-/
import KanaKanji.Session.Typing

namespace KanaKanji

namespace Situation

variable (s : Situation)

/-- Commit the current candidate, and learn it. -/
def commitCurrent (selection : Selection) : Outcome :=
  let candidate := selection.current
  { s.commits .idle candidate.output with
    shelf := s.registered candidate.key.headword candidate.entry }

/-- Purge the current candidate from the dictionaries. -/
def purgeCurrent (selection : Selection) : Outcome :=
  let candidate := selection.current
  { s.moves .idle with
    shelf := (s.shelf.purge s.layers candidate.key.headword candidate.entry.surface).2 }

/-- Go back to the reading that the candidates are for. -/
def backToReading (selection : Selection) : Outcome :=
  s.moves (.editing selection.key selection.origin)

/-- A key without a command: a printable one commits the current candidate and is then
typed directly. -/
def commitAndType (stay : Segment) (selection : Selection) (event : KeyEvent) : Outcome :=
  match event.printable with
  | none => s.ignores stay
  | some _ =>
    { (s.commitCurrent selection).andThen s fun s => s.direct [] event with consumed := true }

/-- A key while a candidate for a reading is chosen. -/
def select (selection : Selection) (event : KeyEvent) : Outcome :=
  let stay := Segment.selecting selection
  if s.binds .nextCandidate event then s.moves (.selecting selection.next)
  else if s.binds .previousCandidate event then s.moves (.selecting selection.previous)
  else if s.binds .purgeCandidate event then s.purgeCurrent selection
  else if s.binds .registerWord event then
    s.moves (if s.canRegister then registration selection.key selection.origin else stay)
  else if s.binds .delete event then s.backToReading selection
  else if s.binds .commit event then s.commitCurrent selection
  else s.commitAndType stay selection event

/-- A key while a completion of a reading is chosen. -/
def complete (selection : Selection) (event : KeyEvent) : Outcome :=
  let stay := Segment.completing selection
  if s.binds .complete event then s.moves (.completing selection.next)
  else if s.binds .previousCompletion event then s.moves (.completing selection.previous)
  else if s.binds .convert event then
    s.moves (s.conversion selection.current.key selection.origin)
  else if s.binds .delete event then s.backToReading selection
  else if s.binds .purgeCandidate event then s.purgeCurrent selection
  else if s.binds .commit event then s.commitCurrent selection
  else s.commitAndType stay selection event

end Situation

end KanaKanji

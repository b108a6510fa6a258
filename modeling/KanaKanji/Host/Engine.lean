/-
The engine as a host uses it: dictionaries and contexts by their handles.

Handles count from zero, dictionaries and contexts apart.  The handle of a dictionary is
its place on the shelf; closing it gives the handle up, while contexts that use the
dictionary go on with it.  The romaji table is fixed when the first context is made, and
the settings when the first context is made without settings of its own.
-/
import KanaKanji.Dictionary.Snapshot
import KanaKanji.Host.FileTree
import KanaKanji.Host.Preset
import KanaKanji.Romaji.Document
import KanaKanji.Session.Context
import KanaKanji.Settings.Builtin

namespace KanaKanji

/-! ### What can go wrong -/

/-- Why the engine refuses a request of its host. -/
inductive EngineError
  | file
  | badTable (reason : TableError)
  | badSettings (reason : SettingsError)
  | tableInstalled
  | settingsInstalled
  | badKey (reason : KeyError)
  | badDictionary (reason : DictionaryError)
  deriving DecidableEq, Repr

namespace EngineError

/-- Data that do not fit, in words. -/
def invalidData (reason : Text) : Text :=
  "invalid data: ".toList ++ reason

/-- The error in words. -/
def message : EngineError → Text
  | file => "IO error".toList
  | badTable reason => invalidData reason.message
  | badSettings reason => invalidData reason.message
  | tableInstalled => invalidData "romaji table already initialized".toList
  | settingsInstalled => invalidData "settings already initialized".toList
  | badKey reason => "unresolvable key event: ".toList ++ reason.message
  | badDictionary (.readOnly name) => (DictionaryError.readOnly name).message
  | badDictionary reason => "dictionary error: ".toList ++ reason.message

end EngineError

/-! ### The engine -/

/-- What the engine keeps between the requests of its host. -/
structure Engine where
  shelf : Shelf
  /-- The contexts by handle; destroyed ones are gone. -/
  contexts : List (Option Context)
  table : Preset RomajiTable
  settings : Preset Settings
  files : FileTree

namespace Engine

/-- An engine that has not been asked anything. -/
def fresh : Engine where
  shelf := []
  contexts := []
  table := .fresh
  settings := .fresh
  files := .empty

/-- The version of the engine. -/
def version : Text := "0.1.0".toList

/-- Whether the engine starts writing a trace; it has none. -/
def startTrace : Bool := false

variable (engine : Engine)

/-! ### Configuration -/

/-- Install a romaji table from the text of a file, or from a file that is missing. -/
def loadTable (document : Option Text) : Except EngineError Engine :=
  match document with
  | none => .error .file
  | some s =>
    match RomajiTable.ofDocument s with
    | .error e => .error (.badTable e)
    | .ok table =>
      match engine.table.install? table with
      | none => .error .tableInstalled
      | some table => .ok { engine with table := table }

/-- Install settings from the text of a file, or from a file that is missing. -/
def loadSettings (document : Option Text) : Except EngineError Engine :=
  match document with
  | none => .error .file
  | some s =>
    match Settings.ofText s with
    | .error e => .error (.badSettings e)
    | .ok settings =>
      match engine.settings.install? settings with
      | none => .error .settingsInstalled
      | some settings => .ok { engine with settings := settings }

/-! ### Dictionaries -/

/-- Put a dictionary on the shelf, and its handle. -/
def shelve (dictionary : Dictionary) : Nat × Engine :=
  (engine.shelf.length, { engine with shelf := engine.shelf ++ [dictionary] })

/-- Open a dictionary over surfaces by reading. -/
def openDictionary (surfaces : List (Text × List Text)) (writable : Bool) : Nat × Engine :=
  let groups : List Group := surfaces.map fun (reading, surfaces) =>
    (reading, surfaces.map fun surface => { surface := surface })
  engine.shelve
    (if writable then .user Dictionary.userName groups else .fixed Dictionary.systemName groups)

/-- Open the dictionary that was saved to a file; a file that is missing holds none. -/
def loadDictionary (path : Path) : Except EngineError (Nat × Engine) :=
  match engine.files.read path with
  | .error .missing => .ok (engine.shelve (.user Dictionary.userName []))
  | .error _ => .error .file
  | .ok bytes =>
    match Snapshot.decode bytes with
    | .error e => .error (.badDictionary e)
    | .ok dictionary => .ok (engine.shelve dictionary)

/-- The dictionary of a handle. -/
def dictionary? (handle : Nat) : Option Dictionary :=
  engine.shelf[handle]?

/-- Save a dictionary to a file.  Only what can be written to is saved. -/
def saveDictionary (handle : Nat) (path : Path) : Except EngineError Unit × Engine :=
  match engine.dictionary? handle with
  | none => (.error (.badDictionary .nothingWritable), engine)
  | some d =>
    if d.writable then
      let (result, files) := engine.files.replace path (Snapshot.encode d.words)
      (result.mapError fun _ => .file, { engine with files := files })
    else (.error (.badDictionary (.readOnly d.name)), engine)

/-- A living context uses the dictionary. -/
def isInUse (handle : Nat) : Bool :=
  engine.contexts.any fun context => (context.map fun c => c.layers.contains handle).getD false

/-- The surfaces under a reading. -/
def lookup (handle : Nat) (reading : Text) : List Text :=
  ((engine.dictionary? handle).map fun d => (d.lookup reading).map Entry.surface).getD []

/-- Register a surface, and whether it is new. -/
def register (handle : Nat) (reading surface : Text) : Except EngineError (Bool × Engine) :=
  match engine.shelf.registerAt handle reading { surface := surface } with
  | .error e => .error (.badDictionary e)
  | .ok (isNew, shelf) => .ok (isNew, { engine with shelf := shelf })

/-- Purge a surface, and whether it was there. -/
def unregister (handle : Nat) (reading surface : Text) : Except EngineError (Bool × Engine) :=
  match engine.shelf.purgeAt handle reading surface with
  | .error e => .error (.badDictionary e)
  | .ok (removed, shelf) => .ok (removed, { engine with shelf := shelf })

/-- The words of a dictionary that can be written to. -/
def list (handle : Nat) : List (Text × Text) :=
  match engine.dictionary? handle with
  | some d => if d.writable then d.list else []
  | none => []

/-! ### Contexts -/

/-- Make a context with settings of its own, and its handle. -/
def newContextWith (layers : Layers) (settings : Settings) : Nat × Engine :=
  let context := Context.new settings (engine.table.value .builtin) layers
  (engine.contexts.length,
    { engine with
      table := engine.table.use .builtin
      contexts := engine.contexts ++ [some context] })

/-- Make a context, and its handle. -/
def newContext (layers : Layers) : Nat × Engine :=
  let settings := engine.settings.value .builtin
  { engine with settings := engine.settings.use .builtin }.newContextWith layers settings

/-- The context of a handle. -/
def context? (handle : Nat) : Option Context :=
  (engine.contexts[handle]?).join

/-- The engine with another context under a handle. -/
def setContext (handle : Nat) (context : Option Context) : Engine :=
  { engine with contexts := engine.contexts.set handle context }

/-- Destroy a context. -/
def destroyContext (handle : Nat) : Engine :=
  engine.setContext handle none

/-- Give a key to a context, and whether it was consumed. -/
def press (handle : Nat) (event : KeyEvent) : Bool × Engine :=
  match engine.context? handle with
  | none => (false, engine)
  | some context =>
    let reaction := context.press engine.shelf event
    (reaction.consumed,
      { engine with shelf := reaction.shelf }.setContext handle (some reaction.context))

/-- Give keys to a context one by one, and which were consumed. -/
def pressAll (engine : Engine) (handle : Nat) : List KeyEvent → List Bool × Engine
  | [] => ([], engine)
  | event :: events =>
    let (consumed, engine) := engine.press handle event
    let (rest, engine) := engine.pressAll handle events
    (consumed :: rest, engine)

/-- Give the key of a notation to a context. -/
def pressNotation (handle : Nat) (s : Text) : Except EngineError (Bool × Engine) :=
  match KeyEvent.ofNotation s with
  | .error e => .error (.badKey e)
  | .ok event => .ok (engine.press handle event)

/-- Give the key of a window system code to a context.  A code without a key is left to the
host. -/
def pressCode (handle : Nat) (code : Nat) (modifiers : Modifiers) : Bool × Engine :=
  match KeyEvent.ofCode code modifiers with
  | .error _ => (false, engine)
  | .ok event => engine.press handle event

/-- Change a context. -/
def changeContext (handle : Nat) (f : Context → Context) : Engine :=
  match engine.context? handle with
  | none => engine
  | some context => engine.setContext handle (some (f context))

/-- Take the committed text of a context. -/
def poll (handle : Nat) : Text × Engine :=
  match engine.context? handle with
  | none => ([], engine)
  | some context =>
    let (output, context) := context.poll
    (output, engine.setContext handle (some context))

end Engine

end KanaKanji

/-
Configuration: which romaji table and which settings are in force.

A preset is decided by the first thing that happens to it: an installation chooses the value, a
use fixes the one that it has by itself.  The settings are used when a context is made without
settings of its own, as their installation is meant to come before.  The table is used when any
context is made, so that it must be installed before that, and not only before the first key.

* `Preset.value_run_of_decided`: a preset that is decided keeps its value;
* `Engine.context?_serve`: a context keeps its settings and its table;
* `Configuration.preset_run`: along a run of requests a preset meets just what they do with it;
* `Configuration.load_run`: what loading comes to, for either preset;
* `Engine.loads_in_force`: which loads succeed, and when what they load is in force;
* `Engine.table_loaded_late`: a table that is loaded before any key and is not in force.
-/
import KanaKanji.Proofs.Host.Requests

namespace KanaKanji

/-! ### Presets along a run -/

namespace Preset

variable {α : Type} {preset : Preset α} {standard : α}

/-- What is done with a preset. -/
inductive Call (α : Type)
  | install (value : α)
  | use

/-- The preset after a call.  An installation that is refused leaves it as it is. -/
def serve (standard : α) (preset : Preset α) : Call α → Preset α
  | .install value => (preset.install? value).getD preset
  | .use => preset.use standard

/-- The preset after calls, one by one. -/
def run (standard : α) (preset : Preset α) (calls : List (Call α)) : Preset α :=
  calls.foldl (serve standard) preset

theorem run_cons (call : Call α) (calls : List (Call α)) :
    preset.run standard (call :: calls) = (serve standard preset call).run standard calls := rfl

/-- The value has been chosen or fixed. -/
def Decided (preset : Preset α) : Prop :=
  preset.installed ≠ none ∨ preset.fixed ≠ none

/-- The first value that is installed stays. -/
theorem serve_install (preset : Preset α) (value : α) :
    serve standard preset (.install value)
      = { preset with installed := some (preset.installed.getD value) } := by
  obtain ⟨installed, fixed⟩ := preset
  cases installed <;> rfl

/-- Whatever is done with a preset decides it. -/
theorem decided_serve (preset : Preset α) (call : Call α) :
    (serve standard preset call).Decided := by
  cases call with
  | use => exact Or.inr (Option.some_ne_none _)
  | install value =>
    rw [serve_install]
    exact Or.inl (Option.some_ne_none _)

theorem value_serve_of_decided (h : preset.Decided) (call : Call α) :
    (serve standard preset call).value standard = preset.value standard := by
  cases call with
  | use => exact value_use preset standard
  | install value =>
    rw [serve_install]
    obtain ⟨installed, fixed⟩ := preset
    cases fixed with
    | some fixed => rfl
    | none =>
      -- what has not been fixed has been installed
      cases installed with
      | some chosen => rfl
      | none => exact absurd rfl (h.resolve_right (not_not.mpr rfl))

/-- What has been fixed stays. -/
theorem fixed_serve (standard : α) {fixed : α} (h : preset.fixed = some fixed) (call : Call α) :
    (serve standard preset call).fixed = some fixed := by
  cases call with
  | use =>
    show some (preset.value standard) = some fixed
    rw [Preset.value, h, Option.getD_some]
  | install value =>
    rw [serve_install]
    exact h

/-- **A preset that is decided keeps its value.** -/
theorem value_run_of_decided (h : preset.Decided) (calls : List (Call α)) :
    (preset.run standard calls).value standard = preset.value standard := by
  induction calls generalizing preset with
  | nil => rfl
  | cons call calls ih =>
    exact (ih (decided_serve preset call)).trans (value_serve_of_decided h call)

/-- Nothing is installed as long as nobody tries. -/
theorem installed_run_eq_none_iff {calls : List (Call α)} :
    (preset.run standard calls).installed = none ↔
      preset.installed = none ∧ ∀ call ∈ calls, call = .use := by
  induction calls generalizing preset with
  | nil => simp [run]
  | cons call calls ih =>
    have hserve : (serve standard preset call).installed = none ↔
        preset.installed = none ∧ call = .use := by
      cases call with
      | use => exact (and_iff_left rfl).symm
      | install value =>
        rw [serve_install]
        exact iff_of_false (Option.some_ne_none _) fun h => nomatch h.2
    rw [run_cons, ih, hserve, List.forall_mem_cons, and_assoc]

/-- Nothing is fixed as long as nobody uses it. -/
theorem fixed_run_eq_none_iff {calls : List (Call α)} :
    (preset.run standard calls).fixed = none ↔
      preset.fixed = none ∧ ∀ call ∈ calls, call ≠ .use := by
  induction calls generalizing preset with
  | nil => simp [run]
  | cons call calls ih =>
    have hserve : (serve standard preset call).fixed = none ↔
        preset.fixed = none ∧ call ≠ .use := by
      cases call with
      | use => exact iff_of_false (Option.some_ne_none _) fun h => h.2 rfl
      | install value =>
        rw [serve_install]
        exact (and_iff_left nofun).symm
    rw [run_cons, ih, hserve, List.forall_mem_cons, and_assoc]

/-- Without an installation the value is the preset's own. -/
theorem value_run_of_not_installed {calls : List (Call α)}
    (h : (fresh.run standard calls).installed = none) :
    (fresh.run standard calls).value standard = standard := by
  have huses := (installed_run_eq_none_iff.mp h).2
  cases calls with
  | nil => rfl
  | cons call calls =>
    obtain rfl := huses call List.mem_cons_self
    -- the first use fixes the value that the preset has by itself
    have hdecided : (fresh.use standard).Decided := Or.inr (Option.some_ne_none _)
    exact value_run_of_decided hdecided calls

/-- A value that is installed counts unless another one has been fixed. -/
theorem value_installed (preset : Preset α) (standard value : α) :
    ({ preset with installed := some value } : Preset α).value standard
      = preset.fixed.getD value := rfl

/-- **The first value that is installed counts** when nobody has used the preset before. -/
theorem value_installed_iff {calls : List (Call α)} {value : α}
    (h : (fresh.run standard calls).installed = none) :
    ({ fresh.run standard calls with installed := some value } : Preset α).value standard = value ↔
      (∀ call ∈ calls, call ≠ .use) ∨ value = standard := by
  have hunused : (fresh.run standard calls).fixed = none ↔ ∀ call ∈ calls, call ≠ .use :=
    fixed_run_eq_none_iff.trans (and_iff_right rfl)
  rw [value_installed]
  cases hfixed : (fresh.run standard calls).fixed with
  | none => exact iff_of_true rfl (Or.inl (hunused.mp hfixed))
  | some fixed =>
    -- it was fixed before anything was installed
    have hstandard : fixed = standard := by
      have hvalue := value_run_of_not_installed h
      rwa [Preset.value, hfixed] at hvalue
    have hused : ¬ ∀ call ∈ calls, call ≠ .use := by
      rw [← hunused, hfixed]
      exact Option.some_ne_none fixed
    rw [hstandard]
    exact ⟨fun he => Or.inr he.symm, fun he => (he.resolve_left hused).symm⟩

end Preset

/-! ### Requests that have to do with the configuration -/

namespace HostRequest

/-- The table that the request loads, if its document can be read. -/
def table? : HostRequest → Option RomajiTable
  | .loadTable (some s) => (RomajiTable.ofDocument s).toOption
  | _ => none

/-- The settings that the request loads, if its document can be read. -/
def settings? : HostRequest → Option Settings
  | .loadSettings (some s) => (Settings.ofText s).toOption
  | _ => none

/-- The request makes a context. -/
def makesContext : HostRequest → Bool
  | .newContext _ => true
  | .newContextWith _ _ => true
  | _ => false

/-- The request makes a context without settings of its own. -/
def takesSettings : HostRequest → Bool
  | .newContext _ => true
  | _ => false

/-- The request loads something or makes a context. -/
def configures : HostRequest → Bool
  | .loadTable _ => true
  | .loadSettings _ => true
  | request => request.makesContext

end HostRequest

namespace Engine

variable {engine : Engine}

/-- A table is loaded from a document that can be read, and only the first time. -/
theorem loadTable_succeeds_iff (engine : Engine) (document : Option Text) :
    (∃ loaded, engine.loadTable document = .ok loaded) ↔
      (HostRequest.loadTable document).table? ≠ none ∧ engine.table.installed = none := by
  cases document with
  | none => simp [loadTable, HostRequest.table?]
  | some s =>
    dsimp only [loadTable, HostRequest.table?, Preset.install?]
    cases RomajiTable.ofDocument s with
    | error e => simp [Except.toOption]
    | ok table => cases engine.table.installed <;> simp [Except.toOption]

theorem loadSettings_succeeds_iff (engine : Engine) (document : Option Text) :
    (∃ loaded, engine.loadSettings document = .ok loaded) ↔
      (HostRequest.loadSettings document).settings? ≠ none ∧ engine.settings.installed = none := by
  cases document with
  | none => simp [loadSettings, HostRequest.settings?]
  | some s =>
    dsimp only [loadSettings, HostRequest.settings?, Preset.install?]
    cases Settings.ofText s with
    | error e => simp [Except.toOption]
    | ok settings => cases engine.settings.installed <;> simp [Except.toOption]

/-- The table after a request to load one. -/
theorem serve_loadTable (engine : Engine) (document : Option Text) :
    engine.serve (.loadTable document) = { engine with
      table := (HostRequest.loadTable document).table?.elim engine.table
        fun table => engine.table.serve .builtin (.install table) } := by
  cases document with
  | none => rfl
  | some s =>
    dsimp only [serve, loadTable, HostRequest.table?]
    cases RomajiTable.ofDocument s with
    | error e => rfl
    | ok table =>
      dsimp only [Except.toOption, Option.elim_some, Preset.serve]
      cases engine.table.install? table <;> rfl

theorem serve_loadSettings (engine : Engine) (document : Option Text) :
    engine.serve (.loadSettings document) = { engine with
      settings := (HostRequest.loadSettings document).settings?.elim engine.settings
        fun settings => engine.settings.serve .builtin (.install settings) } := by
  cases document with
  | none => rfl
  | some s =>
    dsimp only [serve, loadSettings, HostRequest.settings?]
    cases Settings.ofText s with
    | error e => rfl
    | ok settings =>
      dsimp only [Except.toOption, Option.elim_some, Preset.serve]
      cases engine.settings.install? settings <;> rfl

/-! ### What a request leaves of the configuration -/

/-- The presets are as before, and every context has the settings and the table that it had. -/
structure KeepsSetup (engine after : Engine) : Prop where
  table : after.table = engine.table
  settings : after.settings = engine.settings
  length : after.contexts.length = engine.contexts.length
  contexts : ∀ handle context, after.context? handle = some context →
    ∃ old, engine.context? handle = some old ∧ context.settings = old.settings ∧
      context.table = old.table

theorem keepsSetup_of_contexts {after : Engine} (htable : after.table = engine.table)
    (hsettings : after.settings = engine.settings)
    (hcontexts : after.contexts = engine.contexts) : engine.KeepsSetup after where
  table := htable
  settings := hsettings
  length := congrArg List.length hcontexts
  contexts handle context h := by
    refine ⟨context, ?_, rfl, rfl⟩
    rw [← h, context?, context?, hcontexts]

theorem keepsSetup_refl (engine : Engine) : engine.KeepsSetup engine :=
  keepsSetup_of_contexts rfl rfl rfl

/-- A context may be destroyed, or go on with its settings and its table. -/
theorem keepsSetup_setContext (engine : Engine) (handle : Nat) {changed : Option Context}
    (h : ∀ context ∈ changed, ∃ old, engine.context? handle = some old ∧
      context.settings = old.settings ∧ context.table = old.table) :
    engine.KeepsSetup (engine.setContext handle changed) where
  table := rfl
  settings := rfl
  length := List.length_set
  contexts other context hother := by
    by_cases hplace : other = handle
    · subst hplace
      have hset : (engine.contexts.set other changed)[other]?.join = some context := hother
      rw [List.getElem?_set_self'] at hset
      cases hold : engine.contexts[other]? with
      | none =>
        rw [hold] at hset
        exact nomatch hset
      | some old =>
        rw [hold] at hset
        exact h context hset
    · refine ⟨context, ?_, rfl, rfl⟩
      have hset : (engine.contexts.set handle changed)[other]?.join = some context := hother
      rwa [List.getElem?_set_ne (Ne.symm hplace)] at hset

theorem keepsSetup_changeContext (engine : Engine) (handle : Nat) {f : Context → Context}
    (hf : ∀ context, (f context).settings = context.settings ∧ (f context).table = context.table) :
    engine.KeepsSetup (engine.changeContext handle f) := by
  unfold changeContext
  split
  · exact engine.keepsSetup_refl
  · rename_i context hcontext
    refine engine.keepsSetup_setContext handle fun changed hchanged => ⟨context, hcontext, ?_⟩
    obtain rfl := Option.some.inj hchanged
    exact hf context

theorem keepsSetup_press (engine : Engine) (handle : Nat) (event : KeyEvent) :
    engine.KeepsSetup (engine.press handle event).2 := by
  unfold press
  split
  · exact engine.keepsSetup_refl
  · rename_i context hcontext
    -- what the key writes to the shelf does not matter here
    let pressed := context.press engine.shelf event
    have hkeeps := keepsSetup_setContext { engine with shelf := pressed.shelf } handle
      fun changed (hchanged : changed ∈ some pressed.context) => ⟨context, hcontext, by
        obtain rfl := Option.some.inj hchanged
        obtain ⟨hsettings, htable, -⟩ :=
          Session.serve_frame ⟨context, engine.shelf⟩ (.press event)
        exact ⟨hsettings, htable⟩⟩
    exact ⟨hkeeps.table, hkeeps.settings, hkeeps.length, hkeeps.contexts⟩

theorem keepsSetup_serve {request : HostRequest} (h : request.configures = false) :
    engine.KeepsSetup (engine.serve request) := by
  cases request with
  | loadTable document => exact absurd h.symm Bool.false_ne_true
  | loadSettings document => exact absurd h.symm Bool.false_ne_true
  | newContext layers => exact absurd h.symm Bool.false_ne_true
  | newContextWith layers settings => exact absurd h.symm Bool.false_ne_true
  | loadDictionary path =>
    rw [serve]
    rcases engine.afterAnswer_loadDictionary path with hsame | ⟨d, -, hserve⟩
    · rw [hsame]
      exact engine.keepsSetup_refl
    · rw [hserve]
      exact keepsSetup_of_contexts rfl rfl rfl
  | saveDictionary handle path =>
    rw [serve, saveDictionary_eq]
    exact keepsSetup_of_contexts rfl rfl rfl
  | register handle reading surface =>
    rw [serve, afterAnswer_register]
    exact keepsSetup_of_contexts rfl rfl rfl
  | unregister handle reading surface =>
    rw [serve, afterAnswer_unregister]
    exact keepsSetup_of_contexts rfl rfl rfl
  | destroyContext handle =>
    exact engine.keepsSetup_setContext handle fun context hnone =>
      absurd hnone (Option.not_mem_none context)
  | press handle event => exact engine.keepsSetup_press handle event
  | pressNotation handle s =>
    rw [serve, pressNotation]
    split
    · exact engine.keepsSetup_refl
    · exact engine.keepsSetup_press handle _
  | pressCode handle code modifiers =>
    rw [serve, pressCode]
    split
    · exact engine.keepsSetup_refl
    · exact engine.keepsSetup_press handle _
  | setMode handle mode => exact engine.keepsSetup_changeContext handle fun _ => ⟨rfl, rfl⟩
  | reset handle => exact engine.keepsSetup_changeContext handle fun _ => ⟨rfl, rfl⟩
  | poll handle =>
    have hpoll : (engine.poll handle).2
        = engine.changeContext handle fun context => context.poll.2 := by
      unfold poll changeContext
      cases engine.context? handle <;> rfl
    rw [serve, hpoll]
    exact engine.keepsSetup_changeContext handle fun _ => ⟨rfl, rfl⟩
  | openDictionary surfaces writable => exact keepsSetup_of_contexts rfl rfl rfl

/-- What configures the engine leaves the contexts alone, or makes one behind them. -/
theorem contexts_of_configures (engine : Engine) {request : HostRequest}
    (h : request.configures = true) :
    (engine.serve request).contexts = engine.contexts ∨
      request.makesContext = true ∧ ∃ made : Context, made.table = engine.table.value .builtin ∧
        (engine.serve request).contexts = engine.contexts ++ [some made] := by
  cases request with
  | loadTable document =>
    rw [serve_loadTable]
    exact Or.inl rfl
  | loadSettings document =>
    rw [serve_loadSettings]
    exact Or.inl rfl
  | newContext layers => exact Or.inr ⟨rfl, _, rfl, rfl⟩
  | newContextWith layers settings => exact Or.inr ⟨rfl, _, rfl, rfl⟩
  | _ => exact nomatch h

/-- **A context keeps its settings and its table**, or it is made by the request, with the table in
force. -/
theorem context?_serve {request : HostRequest} {handle : Nat} {context : Context}
    (h : (engine.serve request).context? handle = some context) :
    (∃ old, engine.context? handle = some old ∧ context.settings = old.settings ∧
      context.table = old.table) ∨
      handle = engine.contexts.length ∧ request.makesContext = true ∧
        context.table = engine.table.value .builtin := by
  cases hrequest : request.configures with
  | false => exact Or.inl ((keepsSetup_serve hrequest).contexts handle context h)
  | true =>
    unfold context? at h
    rcases engine.contexts_of_configures hrequest with hsame | ⟨hmakes, made, htable, hmade⟩
    · rw [hsame] at h
      exact Or.inl ⟨context, h, rfl, rfl⟩
    · rw [hmade] at h
      rcases Nat.lt_trichotomy handle engine.contexts.length with hlt | rfl | hgt
      · rw [List.getElem?_append_left hlt] at h
        exact Or.inl ⟨context, h, rfl, rfl⟩
      · rw [List.getElem?_concat_length] at h
        obtain rfl := Option.some.inj h
        exact Or.inr ⟨rfl, hmakes, htable⟩
      · rw [List.getElem?_eq_none (by simpa using Nat.succ_le_of_lt hgt)] at h
        exact nomatch h

theorem length_contexts_serve (engine : Engine) (request : HostRequest) :
    engine.contexts.length ≤ (engine.serve request).contexts.length := by
  cases h : request.configures with
  | false => exact Nat.le_of_eq (keepsSetup_serve h).length.symm
  | true =>
    rcases engine.contexts_of_configures h with hsame | ⟨-, made, -, hmade⟩
    · exact Nat.le_of_eq (congrArg List.length hsame).symm
    · rw [hmade, List.length_append]
      exact Nat.le_add_right _ _

theorem table_serve (engine : Engine) (request : HostRequest) :
    (engine.serve request).table =
      if request.makesContext = true then engine.table.use .builtin
      else request.table?.elim engine.table
        fun table => engine.table.serve .builtin (.install table) := by
  cases h : request.configures with
  | false =>
    rw [(keepsSetup_serve h).table]
    cases request <;> first | rfl | exact nomatch h
  | true =>
    cases request with
    | loadTable document =>
      rw [serve_loadTable]
      rfl
    | loadSettings document =>
      rw [serve_loadSettings]
      rfl
    | newContext layers => rfl
    | newContextWith layers settings => rfl
    | _ => exact nomatch h

theorem settings_serve (engine : Engine) (request : HostRequest) :
    (engine.serve request).settings =
      if request.takesSettings = true then engine.settings.use .builtin
      else request.settings?.elim engine.settings
        fun settings => engine.settings.serve .builtin (.install settings) := by
  cases h : request.configures with
  | false =>
    rw [(keepsSetup_serve h).settings]
    cases request <;> first | rfl | exact nomatch h
  | true =>
    cases request with
    | loadTable document =>
      rw [serve_loadTable]
      rfl
    | loadSettings document =>
      rw [serve_loadSettings]
      rfl
    | newContext layers => rfl
    | newContextWith layers settings => rfl
    | _ => exact nomatch h

end Engine

/-! ### Kinds of configuration -/

/-- A kind of configuration: the preset that it is kept in, how it is loaded, and which requests
use it. -/
structure Configuration (α : Type) where
  /-- The value that counts when none is loaded. -/
  standard : α
  preset : Engine → Preset α
  load : Engine → Option Text → Except EngineError Engine
  /-- The request to load a document. -/
  request : Option Text → HostRequest
  /-- The value that a request loads, if its document can be read. -/
  loaded? : HostRequest → Option α
  uses : HostRequest → Bool
  preset_fresh : preset .fresh = .fresh
  loaded?_of_uses : ∀ request, uses request = true → loaded? request = none
  serve_request : ∀ (engine : Engine) document,
    engine.serve (request document) = engine.afterInstalling (load engine document)
  load_succeeds_iff : ∀ engine document, (∃ loaded, load engine document = .ok loaded) ↔
    loaded? (request document) ≠ none ∧ (preset engine).installed = none
  preset_serve : ∀ (engine : Engine) other, preset (engine.serve other) =
    if uses other = true then (preset engine).use standard
    else (loaded? other).elim (preset engine)
      fun value => (preset engine).serve standard (.install value)

namespace Configuration

variable {α : Type} (c : Configuration α) {engine : Engine} {requests : List HostRequest}

/-- What a request does with the preset. -/
def call? (request : HostRequest) : Option (Preset.Call α) :=
  if c.uses request then some .use else (c.loaded? request).map .install

/-- **The preset meets just what the requests do with it.** -/
theorem preset_run (engine : Engine) (requests : List HostRequest) :
    c.preset (engine.run requests)
      = (c.preset engine).run c.standard (requests.filterMap c.call?) := by
  induction requests generalizing engine with
  | nil => rfl
  | cons request requests ih =>
    rw [Engine.run_cons, ih, c.preset_serve, List.filterMap_cons, call?]
    by_cases huses : c.uses request = true
    · rw [if_pos huses, if_pos huses]
      rfl
    · rw [if_neg huses, if_neg huses]
      cases c.loaded? request <;> rfl

theorem calls_eq_use_iff :
    (∀ call ∈ requests.filterMap c.call?, call = .use) ↔
      ∀ request ∈ requests, c.loaded? request = none := by
  rw [List.forall_mem_filterMap]
  refine forall₂_congr fun request _ => ?_
  unfold call?
  by_cases huses : c.uses request = true
  · simp [huses, c.loaded?_of_uses request huses]
  · simp [huses, Option.eq_none_iff_forall_ne_some]

theorem calls_ne_use_iff :
    (∀ call ∈ requests.filterMap c.call?, call ≠ .use) ↔
      ∀ request ∈ requests, c.uses request = false := by
  rw [List.forall_mem_filterMap]
  refine forall₂_congr fun request _ => ?_
  unfold call?
  by_cases huses : c.uses request = true
  · simp [huses]
  · simp [huses]

/-- What has been loaded leaves room for nothing else. -/
theorem installed_run_iff :
    (c.preset (engine.run requests)).installed = none ↔
      (c.preset engine).installed = none ∧ ∀ request ∈ requests, c.loaded? request = none := by
  rw [c.preset_run, Preset.installed_run_eq_none_iff, c.calls_eq_use_iff]

/-- **What loading comes to.**  A load that is refused changes nothing.  It succeeds when its
document can be read and none has been loaded before, so that no other one succeeds later; and then
it decides the value for good when no request has used it before, or when it is the standard
value. -/
theorem load_run (requests : List HostRequest) (document : Option Text) :
    let engine := Engine.fresh.run requests
    (∀ e, c.load engine document = .error e → engine.serve (c.request document) = engine) ∧
    ((∃ loaded, c.load engine document = .ok loaded) ↔
      c.loaded? (c.request document) ≠ none ∧ ∀ request ∈ requests, c.loaded? request = none) ∧
    ∀ loaded value, c.load engine document = .ok loaded →
      c.loaded? (c.request document) = some value →
      (∀ later again, ∃ e, c.load (loaded.run later) again = .error e) ∧
      (∀ later, (c.preset (loaded.run later)).value c.standard
        = (c.preset loaded).value c.standard) ∧
      ((c.preset loaded).value c.standard = value ↔
        (∀ request ∈ requests, c.uses request = false) ∨ value = c.standard) := by
  intro engine
  have hpreset : c.preset engine
      = Preset.fresh.run c.standard (requests.filterMap c.call?) := by
    rw [c.preset_run, c.preset_fresh]
  have hinstalled : (c.preset engine).installed = none ↔
      ∀ request ∈ requests, c.loaded? request = none := by
    rw [c.installed_run_iff, c.preset_fresh]
    exact and_iff_right rfl
  refine ⟨?_, ?_, ?_⟩
  · intro e he
    rw [c.serve_request, he]
    rfl
  · rw [c.load_succeeds_iff, hinstalled]
  · intro loaded value hload hvalue
    obtain ⟨-, hnone⟩ := (c.load_succeeds_iff engine document).mp ⟨loaded, hload⟩
    have hloaded : c.preset loaded = { c.preset engine with installed := some value } := by
      have hserve : engine.serve (c.request document) = loaded := by
        rw [c.serve_request, hload]
        rfl
      have huses : ¬ c.uses (c.request document) = true := fun huses =>
        nomatch hvalue.symm.trans (c.loaded?_of_uses _ huses)
      rw [← hserve, c.preset_serve, if_neg huses, hvalue, Option.elim_some, Preset.serve_install,
        hnone, Option.getD_none]
    have hthere : (c.preset loaded).installed ≠ none := by
      rw [hloaded]
      exact Option.some_ne_none value
    refine ⟨fun later again => ?_, fun later => ?_, ?_⟩
    · cases hagain : c.load (loaded.run later) again with
      | error e => exact ⟨e, rfl⟩
      | ok other =>
        obtain ⟨-, hroom⟩ := (c.load_succeeds_iff _ again).mp ⟨other, hagain⟩
        exact absurd (c.installed_run_iff.mp hroom).1 hthere
    · rw [c.preset_run]
      exact Preset.value_run_of_decided (Or.inl hthere) _
    · rw [hpreset] at hnone hloaded
      rw [hloaded, Preset.value_installed_iff hnone, c.calls_ne_use_iff]

end Configuration

/-! ### Tables and settings -/

/-- The romaji table, which any new context uses. -/
def Configuration.table : Configuration RomajiTable where
  standard := .builtin
  preset := Engine.table
  load := Engine.loadTable
  request := .loadTable
  loaded? := HostRequest.table?
  uses := HostRequest.makesContext
  preset_fresh := rfl
  loaded?_of_uses request h := by
    cases request <;> first | rfl | exact nomatch h
  serve_request _ _ := rfl
  load_succeeds_iff := Engine.loadTable_succeeds_iff
  preset_serve := Engine.table_serve

/-- The settings, which a new context uses unless it has its own. -/
def Configuration.settings : Configuration Settings where
  standard := .builtin
  preset := Engine.settings
  load := Engine.loadSettings
  request := .loadSettings
  loaded? := HostRequest.settings?
  uses := HostRequest.takesSettings
  preset_fresh := rfl
  loaded?_of_uses request h := by
    cases request <;> first | rfl | exact nomatch h
  serve_request _ _ := rfl
  load_succeeds_iff := Engine.loadSettings_succeeds_iff
  preset_serve := Engine.settings_serve

namespace Engine

variable {engine : Engine}

/-! ### Contexts along a run -/

/-- The context of a handle, as long as it lives, has these settings. -/
def Holds (engine : Engine) (handle : Nat) (settings : Settings) : Prop :=
  handle < engine.contexts.length ∧
    ∀ context, engine.context? handle = some context → context.settings = settings

theorem Holds.run {handle : Nat} {settings : Settings} (h : engine.Holds handle settings)
    (requests : List HostRequest) : (engine.run requests).Holds handle settings := by
  refine run_invariant (P := fun engine => engine.Holds handle settings) ?_ h requests
  intro engine request ⟨hlength, hsettings⟩
  refine ⟨Nat.lt_of_lt_of_le hlength (engine.length_contexts_serve request), ?_⟩
  intro context hcontext
  rcases context?_serve hcontext with ⟨old, hold, hsame, -⟩ | ⟨rfl, -⟩
  · exact hsame.trans (hsettings old hold)
  · exact absurd hlength (Nat.lt_irrefl _)

/-- Every context has the table that has been fixed. -/
def FixesTable (engine : Engine) : Prop :=
  ∀ handle context, engine.context? handle = some context →
    engine.table.fixed = some context.table

theorem FixesTable.run (h : engine.FixesTable) (requests : List HostRequest) :
    (engine.run requests).FixesTable := by
  refine run_invariant (P := FixesTable) ?_ h requests
  intro engine request hfixes handle context hcontext
  rcases context?_serve hcontext with ⟨old, hold, -, hsame⟩ | ⟨rfl, hmakes, htable⟩
  · rw [hsame, table_serve]
    have hfixed := hfixes handle old hold
    split
    · exact Preset.fixed_serve _ hfixed .use
    · cases request.table? with
      | none => exact hfixed
      | some table => exact Preset.fixed_serve .builtin hfixed (.install table)
  · rw [table_serve, if_pos hmakes, htable]
    rfl

theorem FixesTable.table_eq (h : engine.FixesTable) {handle : Nat} {context : Context}
    (hcontext : engine.context? handle = some context) :
    context.table = engine.table.value .builtin := by
  rw [Preset.value, h handle context hcontext, Option.getD_some]

/-- Making a context puts it behind the others. -/
theorem context?_newContext (engine : Engine) (layers : Layers) :
    (engine.newContext layers).2.context? (engine.newContext layers).1
      = some (.new (engine.settings.value .builtin) (engine.table.value .builtin) layers) := by
  show (engine.contexts ++ [some _])[engine.contexts.length]?.join = _
  rw [List.getElem?_concat_length]
  rfl

/-! ### What is in force -/

/-- All contexts spell by the table. -/
def Spells (engine : Engine) (table : RomajiTable) : Prop :=
  ∀ handle context, engine.context? handle = some context → context.table = table

/-- A context that is made without settings of its own has these, for as long as it lives. -/
def Grants (engine : Engine) (settings : Settings) : Prop :=
  ∀ layers, let made := engine.newContext layers
    (made.2.context? made.1).map Context.settings = some settings ∧
      ∀ later context, (made.2.run later).context? made.1 = some context →
        context.settings = settings

theorem grants_iff {settings : Settings} :
    engine.Grants settings ↔ engine.settings.value .builtin = settings := by
  constructor
  · intro h
    obtain ⟨hmade, -⟩ := h []
    rw [context?_newContext] at hmade
    exact Option.some.inj hmade
  · rintro rfl layers
    have hmade := engine.context?_newContext layers
    refine ⟨congrArg (Option.map Context.settings) hmade, fun later context hcontext => ?_⟩
    have hholds : (engine.newContext layers).2.Holds (engine.newContext layers).1
        (engine.settings.value .builtin) := by
      refine ⟨?_, fun context hcontext => ?_⟩
      · simp [newContext, newContextWith]
      · rw [← Option.some.inj (hmade.symm.trans hcontext)]
        rfl
    exact (hholds.run later).2 context hcontext

theorem fixesTable_fresh : fresh.FixesTable :=
  fun _ _ h => nomatch h

/-- All contexts, now and later, spell by a table when it is the one in force, now and later. -/
theorem spells_run_iff (h : engine.FixesTable) {table : RomajiTable}
    (hvalue : ∀ later, (engine.run later).table.value .builtin = engine.table.value .builtin) :
    (∀ later, (engine.run later).Spells table) ↔ engine.table.value .builtin = table := by
  constructor
  · intro hspells
    -- a context that is made now shows the table
    exact hspells [.newContext []] _ _ (engine.context?_newContext [])
  · rintro rfl later handle context hcontext
    rw [(h.run later).table_eq hcontext, hvalue]

/-- **When what is loaded is in force.**  Whatever has been asked of the engine before:

* a load that is refused changes nothing, and so nothing of what comes later;
* a load succeeds when its document can be read and no such document of its kind has been loaded
  before, so that none is loaded after it;
* settings that have been loaded are those of all contexts made later without settings of their own
  when no such context has been made before, or when they are the built-in ones, and only then;
* a table that has been loaded is the one by which all keys spell later when no context at all has
  been made before, or when it is the built-in one, and only then. -/
theorem loads_in_force (requests : List HostRequest) (document : Option Text) :
    let engine := fresh.run requests
    ((∀ e, engine.loadSettings document = .error e →
        ∀ later, (engine.serve (.loadSettings document)).run later = engine.run later) ∧
      ((∃ loaded, engine.loadSettings document = .ok loaded) ↔
        (HostRequest.loadSettings document).settings? ≠ none ∧
          ∀ request ∈ requests, request.settings? = none) ∧
      ∀ loaded settings, engine.loadSettings document = .ok loaded →
        (HostRequest.loadSettings document).settings? = some settings →
        (∀ later again, ∃ e, (loaded.run later).loadSettings again = .error e) ∧
        ((∀ later, (loaded.run later).Grants settings) ↔
          (∀ request ∈ requests, request.takesSettings = false) ∨ settings = .builtin)) ∧
    (∀ e, engine.loadTable document = .error e →
      ∀ later, (engine.serve (.loadTable document)).run later = engine.run later) ∧
    ((∃ loaded, engine.loadTable document = .ok loaded) ↔
      (HostRequest.loadTable document).table? ≠ none ∧
        ∀ request ∈ requests, request.table? = none) ∧
    ∀ loaded table, engine.loadTable document = .ok loaded →
      (HostRequest.loadTable document).table? = some table →
      (∀ later again, ∃ e, (loaded.run later).loadTable again = .error e) ∧
      ((∀ later, (loaded.run later).Spells table) ↔
        (∀ request ∈ requests, request.makesContext = false) ∨ table = .builtin) := by
  intro engine
  obtain ⟨hrefused, hsucceeds, hloads⟩ := Configuration.settings.load_run requests document
  obtain ⟨htrefused, htsucceeds, htloads⟩ := Configuration.table.load_run requests document
  refine ⟨⟨fun e he later => ?_, hsucceeds, ?_⟩, fun e he later => ?_, htsucceeds, ?_⟩
  · exact congrArg (run · later) (hrefused e he)
  · intro loaded settings hload hsettings
    obtain ⟨hlast, hvalue, hforce⟩ := hloads loaded settings hload hsettings
    refine ⟨hlast, ?_⟩
    simp only [grants_iff]
    have hstays : (∀ later, (loaded.run later).settings.value .builtin = settings) ↔
        loaded.settings.value .builtin = settings :=
      ⟨fun h => h [], fun h later => (hvalue later).trans h⟩
    exact hstays.trans hforce
  · exact congrArg (run · later) (htrefused e he)
  · intro loaded table hload htable
    obtain ⟨hlast, hvalue, hforce⟩ := htloads loaded table hload htable
    have hfixes : loaded.FixesTable := by
      have hserve : loaded = engine.serve (.loadTable document) := by
        rw [serve, hload]
        rfl
      rw [hserve]
      exact (fixesTable_fresh.run requests).run [.loadTable document]
    exact ⟨hlast, (spells_run_iff hfixes hvalue).trans hforce⟩

/-- あ is spelled with x.  The table is loaded before there is a context, and every context spells
by it, while no document is loaded any more. -/
theorem loads_in_force_x :
    let document := some "[mappings]\nx = \"あ\"\n".toList
    ∃ loaded table, fresh.loadTable document = .ok loaded ∧
      (HostRequest.loadTable document).table? = some table ∧
      table.convert "x".toList = "あ".toList ∧ (∀ later, (loaded.run later).Spells table) ∧
      ∃ e, (loaded.run [.newContext []]).loadTable document = .error e := by
  intro document
  obtain ⟨-, -, hsucceeds, hloads⟩ := loads_in_force [] document
  have hspelled : (HostRequest.loadTable document).table?.map (·.convert "x".toList)
      = some "あ".toList := by decide +kernel
  obtain ⟨table, htable, hconvert⟩ := Option.map_eq_some_iff.mp hspelled
  obtain ⟨loaded, hload⟩ := hsucceeds.mpr ⟨by rw [htable]; exact Option.some_ne_none table, nofun⟩
  obtain ⟨hlast, hforce⟩ := hloads loaded table hload htable
  exact ⟨loaded, table, hload, htable, hconvert, hforce.mpr (Or.inl nofun), hlast _ _⟩

/-- い is spelled with a.  A context has been made, but no key has been given to it, when the table
is loaded; the load succeeds, and a goes on to be あ. -/
theorem table_loaded_late :
    let document := some "[mappings]\na = \"い\"\n".toList
    let engine := fresh.run [.newContext []]
    ∃ loaded table, engine.loadTable document = .ok loaded ∧
      (HostRequest.loadTable document).table? = some table ∧
      table.convert "a".toList = "い".toList ∧
      ((loaded.press 0 (KeyEvent.ofChar 'a')).2.poll 0).1 = "あ".toList := by
  intro document engine
  have hspelled : (HostRequest.loadTable document).table?.map (·.convert "a".toList)
      = some "い".toList := by decide +kernel
  obtain ⟨table, htable, hconvert⟩ := Option.map_eq_some_iff.mp hspelled
  obtain ⟨loaded, hload⟩ := (engine.loadTable_succeeds_iff document).mpr
    ⟨by rw [htable]; exact Option.some_ne_none table, rfl⟩
  have hloaded : engine.serve (.loadTable document) = loaded := by
    rw [serve, hload]
    rfl
  refine ⟨loaded, table, hload, htable, hconvert, ?_⟩
  rw [← hloaded, serve_loadTable]
  decide +kernel

end Engine

end KanaKanji

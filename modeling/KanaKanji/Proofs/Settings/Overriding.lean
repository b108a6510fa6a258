/-
Settings that a document overrides.

A document takes over the commands that it lists, one by one, and leaves the others with their
built-in keys.  The keys of a keymap are compared with the notations that they were read from
(`Keymap.Lists`).

* `Keymap.exists_override_iff`: which lists of bindings can be taken over;
* `Keymap.lists_override`: a command has the keys that are listed for it, or keeps its keys;
* `SettingsDocument.override_merged`: putting the bindings of a document in place of the built-in
  ones by name, and reading all of them in whatever order, comes to the same keymap;
* `SettingsDocument.overridden_by_command`: which documents give settings, and what their keys are.
-/
import KanaKanji.Proofs.Text.Index
import KanaKanji.Settings.Document
import Mathlib.Data.List.Forall2
import Mathlib.Tactic.SplitIfs

namespace KanaKanji

theorem Command.ofName?_eq_some_iff {name : Text} {command : Command} :
    Command.ofName? name = some command ↔ command.name = name := by
  constructor
  · exact Command.name_of_ofName?
  · rintro rfl
    exact command.ofName?_name

theorem Command.name_inj {command other : Command} (h : command.name = other.name) :
    command = other := by
  have hother := ofName?_name other
  rw [← h, ofName?_name] at hother
  exact Option.some.inj hother

/-! ### Keys and the notations they are read from -/

/-- The keys are those that the notations stand for, one by one. -/
def KeysRead (written : List Text) (keys : List KeyEvent) : Prop :=
  List.Forall₂ (fun s key => KeyEvent.ofNotation s = .ok key) written keys

namespace KeysRead

variable {written : List Text} {keys other : List KeyEvent}

theorem exists_iff :
    (∃ keys, KeysRead written keys) ↔ ∀ s ∈ written, ∃ key, KeyEvent.ofNotation s = .ok key := by
  induction written with
  | nil => exact ⟨fun _ s hs => absurd hs List.not_mem_nil, fun _ => ⟨[], .nil⟩⟩
  | cons s written ih =>
    rw [List.forall_mem_cons, ← ih]
    constructor
    · rintro ⟨_, _ | ⟨hkey, hkeys⟩⟩
      exact ⟨⟨_, hkey⟩, _, hkeys⟩
    · rintro ⟨⟨key, hkey⟩, keys, hkeys⟩
      exact ⟨key :: keys, .cons hkey hkeys⟩

theorem unique (h : KeysRead written keys) (h' : KeysRead written other) : keys = other := by
  induction h generalizing other with
  | nil =>
    cases h'
    rfl
  | cons hkey _ ih =>
    obtain _ | ⟨hkey', hkeys'⟩ := h'
    rw [Except.ok.inj (hkey.symm.trans hkey'), ih hkeys']

/-- An event is one of the keys, when normalized, if a notation stands for it. -/
theorem any_sameKey_iff (h : KeysRead written keys) (event : KeyEvent) :
    (keys.any fun key => key.sameKey event) = true ↔
      ∃ s ∈ written, ∃ key, KeyEvent.ofNotation s = .ok key ∧
        key.normalized = event.normalized := by
  induction h with
  | nil => simp
  | cons hkey _ ih =>
    rw [List.any_cons, Bool.or_eq_true, ih, List.exists_mem_cons_iff, hkey]
    simp [KeyEvent.sameKey]

end KeysRead

theorem keysOfNotations_eq_ok_iff {name : Text} {written : List Text} {keys : List KeyEvent} :
    keysOfNotations name written = .ok keys ↔ KeysRead written keys := by
  induction written generalizing keys with
  | nil =>
    constructor
    · rintro h
      obtain rfl := Except.ok.inj h
      exact .nil
    · rintro ⟨⟩
      rfl
  | cons s written ih =>
    rw [keysOfNotations]
    constructor
    · intro h
      split at h
      · exact nomatch h
      · rename_i key hkey
        cases hrest : keysOfNotations name written with
        | error e =>
          rw [hrest] at h
          exact nomatch h
        | ok rest =>
          rw [hrest] at h
          obtain rfl := Except.ok.inj h
          exact .cons hkey (ih.mp hrest)
    · rintro (_ | ⟨hkey, hkeys⟩)
      rw [hkey, ih.mpr hkeys]
      rfl

/-- A binding that a keymap can take over: the name of a command, and notations of keys. -/
structure Binding.Readable (binding : Binding) : Prop where
  command : ∃ command : Command, command.name = binding.1
  keys : ∀ s ∈ binding.2, ∃ key, KeyEvent.ofNotation s = .ok key

namespace Keymap

variable {keymap result : Keymap} {bindings : List Binding} {command : Command}
  {written : List Text}

/-- The keys of a command are what these notations stand for. -/
def Lists (keymap : Keymap) (command : Command) (written : List Text) : Prop :=
  KeysRead written (keymap.keys command)

/-- Keymaps are the same when the same is listed for each command. -/
theorem ext_of_lists {written : Command → List Text}
    (h : ∀ command, keymap.Lists command (written command))
    (h' : ∀ command, result.Lists command (written command)) : keymap = result := by
  obtain ⟨keys⟩ := keymap
  obtain ⟨others⟩ := result
  have hkeys : keys = others := funext fun command => (h command).unique (h' command)
  rw [hkeys]

/-! ### Taking bindings over -/

theorem override_cons_eq_ok_iff {name : Text} :
    keymap.override ((name, written) :: bindings) = .ok result ↔
      ∃ command keys, Command.name command = name ∧ KeysRead written keys ∧
        (keymap.set command keys).override bindings = .ok result := by
  rw [override]
  constructor
  · intro h
    split at h
    · exact nomatch h
    · rename_i command hcommand
      split at h
      · exact nomatch h
      · rename_i keys hkeys
        exact ⟨command, keys, Command.ofName?_eq_some_iff.mp hcommand,
          keysOfNotations_eq_ok_iff.mp hkeys, h⟩
  · rintro ⟨command, keys, hcommand, hkeys, h⟩
    rw [Command.ofName?_eq_some_iff.mpr hcommand]
    dsimp only
    rw [keysOfNotations_eq_ok_iff.mpr hkeys]
    exact h

/-- **Bindings can be taken over when each of them can be read**, whatever their order. -/
theorem exists_override_iff :
    (∃ result, keymap.override bindings = .ok result) ↔ ∀ binding ∈ bindings, binding.Readable := by
  induction bindings generalizing keymap with
  | nil => exact ⟨fun _ binding hmem => absurd hmem List.not_mem_nil, fun _ => ⟨keymap, rfl⟩⟩
  | cons binding bindings ih =>
    obtain ⟨name, written⟩ := binding
    rw [List.forall_mem_cons]
    constructor
    · rintro ⟨result, h⟩
      obtain ⟨command, keys, hcommand, hkeys, h⟩ := override_cons_eq_ok_iff.mp h
      exact ⟨⟨⟨command, hcommand⟩, KeysRead.exists_iff.mp ⟨keys, hkeys⟩⟩, ih.mp ⟨result, h⟩⟩
    · rintro ⟨⟨⟨command, hcommand⟩, hwritten⟩, hrest⟩
      obtain ⟨keys, hkeys⟩ := KeysRead.exists_iff.mpr hwritten
      obtain ⟨result, h⟩ := ih.mpr hrest
      exact ⟨result, override_cons_eq_ok_iff.mpr ⟨command, keys, hcommand, hkeys, h⟩⟩

/-- A command that is not listed keeps its keys. -/
theorem keys_override (h : keymap.override bindings = .ok result)
    (hnone : command.name ∉ bindings.map Prod.fst) : result.keys command = keymap.keys command := by
  induction bindings generalizing keymap with
  | nil => rw [Except.ok.inj h]
  | cons binding bindings ih =>
    obtain ⟨name, written⟩ := binding
    obtain ⟨other, keys, rfl, -, h⟩ := override_cons_eq_ok_iff.mp h
    rw [List.map_cons, List.mem_cons, not_or] at hnone
    have hother : command ≠ other := fun he => hnone.1 (congrArg Command.name he)
    rw [ih h hnone.2, keys_set_of_ne hother]

/-- **A command has the keys that are listed for it, or keeps its keys.** -/
theorem lists_override (h : keymap.override bindings = .ok result)
    (hnodup : (bindings.map Prod.fst).Nodup) (hlists : keymap.Lists command written) :
    result.Lists command ((Index.findIn command.name bindings).getD written) := by
  induction bindings generalizing keymap with
  | nil =>
    rw [← Except.ok.inj h]
    exact hlists
  | cons binding bindings ih =>
    obtain ⟨name, listed⟩ := binding
    rw [List.map_cons, List.nodup_cons] at hnodup
    obtain ⟨other, keys, hother, hkeys, h⟩ := override_cons_eq_ok_iff.mp h
    rw [Index.findIn]
    split
    · -- the command is listed here, and not again
      rename_i hname
      obtain rfl : other = command := Command.name_inj (hother.trans hname)
      unfold Lists
      rw [keys_override h (hother ▸ hnodup.1), keys_set_self]
      exact hkeys
    · rename_i hname
      refine ih h hnodup.2 ?_
      unfold Lists
      rw [keys_set_of_ne]
      · exact hlists
      · rintro rfl
        exact hname hother.symm

end Keymap

namespace SettingsDocument

variable {document : SettingsDocument} {settings : Settings}

/-! ### Bindings of a document -/

/-- The notations of a command: those that the document lists, or the built-in ones. -/
def written (document : SettingsDocument) (command : Command) : List Text :=
  ((document.bindings.find? command.name).or (builtin.bindings.find? command.name)).getD []

/-- The built-in bindings with those of the document put in their place by name. -/
def merged (document : SettingsDocument) : Index (List Text) :=
  document.bindings.items.foldl (fun index binding => index.insert binding.1 binding.2)
    builtin.bindings

theorem find?_merged (document : SettingsDocument) (name : Text) :
    document.merged.find? name
      = (document.bindings.find? name).or (builtin.bindings.find? name) :=
  Index.find?_foldl_insert (Index.nodup_texts document.bindings.ascending) _ name

theorem override_builtinBindings :
    Keymap.empty.override builtinBindings = .ok Keymap.builtin := by
  have hok := override_builtinBindings_isOk
  unfold Keymap.builtin
  cases h : Keymap.empty.override builtinBindings with
  | error e =>
    rw [h] at hok
    exact nomatch hok
  | ok keymap => rfl

theorem find?_builtin (name : Text) :
    builtin.bindings.find? name = Index.findIn name builtinBindings :=
  Index.find?_ofList (by decide) name

/-- The built-in keymap has the keys of the built-in document. -/
theorem lists_builtin (command : Command) :
    Keymap.builtin.Lists command ((builtin.bindings.find? command.name).getD []) := by
  rw [find?_builtin]
  exact Keymap.lists_override override_builtinBindings (by decide) .nil

/-- **What a document does not list keeps its built-in keys.** -/
theorem lists_written {keymap : Keymap}
    (h : Keymap.builtin.override document.bindings.items = .ok keymap) (command : Command) :
    keymap.Lists command (document.written command) := by
  have hlists := Keymap.lists_override h (Index.nodup_texts document.bindings.ascending)
    (lists_builtin command)
  unfold written
  cases hfind : document.bindings.find? command.name with
  | none =>
    rw [show Index.findIn command.name document.bindings.items = none from hfind] at hlists
    exact hlists
  | some listed =>
    rw [show Index.findIn command.name document.bindings.items = some listed from hfind] at hlists
    exact hlists

theorem readable_of_mem_builtinBindings :
    ∀ binding ∈ builtinBindings, Binding.Readable binding :=
  Keymap.exists_override_iff.mp ⟨_, override_builtinBindings⟩

/-- All bindings can be read when those of the document can. -/
theorem readable_merged_iff : (∀ binding ∈ document.merged.items, Binding.Readable binding) ↔
    ∀ binding ∈ document.bindings.items, Binding.Readable binding := by
  constructor
  · rintro h ⟨name, listed⟩ hmem
    refine h (name, listed) (Index.mem_items_iff.mpr ?_)
    rw [find?_merged, Index.mem_items_iff.mp hmem]
    rfl
  · rintro h ⟨name, listed⟩ hmem
    have hfind := Index.mem_items_iff.mp hmem
    rw [find?_merged] at hfind
    rcases Option.or_eq_some_iff.mp hfind with hlisted | ⟨-, hbuiltin⟩
    · exact h _ (Index.mem_items_iff.mpr hlisted)
    · rw [find?_builtin] at hbuiltin
      exact readable_of_mem_builtinBindings _ (Index.mem_of_findIn hbuiltin)

/-- **Reading all bindings at once, in whatever order, comes to the same keymap**, or to none. -/
theorem override_merged {held : List Binding} (hheld : held.Perm document.merged.items)
    {keymap : Keymap} : Keymap.empty.override held = .ok keymap ↔
      Keymap.builtin.override document.bindings.items = .ok keymap := by
  have hlists : ∀ {result}, Keymap.empty.override held = .ok result →
      ∀ command, result.Lists command (document.written command) := by
    intro result h command
    have hnodup : (held.map Prod.fst).Nodup :=
      (hheld.map Prod.fst).nodup_iff.mpr (Index.nodup_texts document.merged.ascending)
    have hresult : result.Lists command ((Index.findIn command.name held).getD []) :=
      Keymap.lists_override h hnodup .nil
    rw [Index.findIn_of_perm hheld, find?_merged] at hresult
    exact hresult
  have hreadable : (∃ result, Keymap.empty.override held = .ok result) ↔
      ∃ result, Keymap.builtin.override document.bindings.items = .ok result := by
    rw [Keymap.exists_override_iff, Keymap.exists_override_iff, ← readable_merged_iff]
    exact forall_congr' fun binding => imp_congr_left hheld.mem_iff
  constructor
  · intro h
    obtain ⟨result, hresult⟩ := hreadable.mp ⟨keymap, h⟩
    rw [hresult, Keymap.ext_of_lists (hlists h) (lists_written hresult)]
  · intro h
    obtain ⟨result, hresult⟩ := hreadable.mpr ⟨keymap, h⟩
    rw [hresult, Keymap.ext_of_lists (hlists hresult) (lists_written h)]

/-! ### Settings of a document -/

/-- The numbers of a document without fault are positive, and none of its keywords is empty. -/
theorem fault?_eq_none_iff : document.fault? = none ↔ 0 < document.maxRegistrationDepth ∧
    0 < document.maxCompositionLength ∧ 0 < document.maxCompletions ∧
    [] ∉ document.autoStartKeywords := by
  have hkeywords : document.autoStartKeywords.any List.isEmpty = true ↔
      [] ∈ document.autoStartKeywords := by
    simp [List.any_eq_true]
  unfold fault?
  simp only [hkeywords, Nat.pos_iff_ne_zero]
  split_ifs with hdepth hlength hcompletions hempty
  · simp [hdepth]
  · simp [hlength]
  · simp [hcompletions]
  · simp [hempty]
  · simp [hdepth, hlength, hcompletions, hempty]

theorem settings_eq_ok_iff : document.settings = .ok settings ↔ document.fault? = none ∧
    ∃ keymap, Keymap.builtin.override document.bindings.items = .ok keymap ∧
      settings = { document with keymap := keymap } := by
  unfold SettingsDocument.settings
  constructor
  · intro h
    split at h
    · exact nomatch h
    · rename_i hfault
      cases hkeymap : Keymap.builtin.override document.bindings.items with
      | error e =>
        rw [hkeymap] at h
        exact nomatch h
      | ok keymap =>
        rw [hkeymap] at h
        exact ⟨hfault, keymap, rfl, (Except.ok.inj h).symm⟩
  · rintro ⟨hfault, keymap, hkeymap, rfl⟩
    rw [hfault, hkeymap]
    rfl

theorem exists_settings_iff : (∃ settings, document.settings = .ok settings) ↔
    document.fault? = none ∧ ∀ binding ∈ document.bindings.items, Binding.Readable binding := by
  constructor
  · rintro ⟨settings, h⟩
    obtain ⟨hfault, keymap, hkeymap, -⟩ := settings_eq_ok_iff.mp h
    exact ⟨hfault, Keymap.exists_override_iff.mp ⟨keymap, hkeymap⟩⟩
  · rintro ⟨hfault, hreadable⟩
    obtain ⟨keymap, hkeymap⟩ := Keymap.exists_override_iff.mpr hreadable
    exact ⟨_, settings_eq_ok_iff.mpr ⟨hfault, keymap, hkeymap, rfl⟩⟩

/-- **A document overrides the built-in keys one command at a time.**

* It gives settings when its numbers are positive, no keyword is empty, and each name in its keymap
  is that of a command, with notations that can all be read.
* An event is then bound to a command when a notation of the command stands for it, when normalized.
  The notations are those that the document lists, which may be none, and the built-in ones of a
  command that it does not list.
* The keymap is that of all bindings together, those of the document put in place of the built-in
  ones by name, in whatever order they are read; and where these cannot be read there are no
  settings. -/
theorem overridden_by_command (document : SettingsDocument) :
    (∀ text, ofText? text = some document → Settings.ofText text = document.settings) ∧
    ((∃ settings, document.settings = .ok settings) ↔
      0 < document.maxRegistrationDepth ∧ 0 < document.maxCompositionLength ∧
        0 < document.maxCompletions ∧ [] ∉ document.autoStartKeywords ∧
        ∀ name listed, document.bindings.find? name = some listed →
          (∃ command : Command, command.name = name) ∧
            ∀ s ∈ listed, ∃ key, KeyEvent.ofNotation s = .ok key) ∧
    (∀ settings, document.settings = .ok settings → ∀ command event,
      settings.keymap.binds command event = true ↔ ∃ s ∈ document.written command,
        ∃ key, KeyEvent.ofNotation s = .ok key ∧ key.normalized = event.normalized) ∧
    ∀ held, held.Perm document.merged.items → ∀ settings, document.settings = .ok settings ↔
      document.fault? = none ∧ ∃ keymap, Keymap.empty.override held = .ok keymap ∧
        settings = { document with keymap := keymap } := by
  refine ⟨fun text h => ?_, ?_, fun settings h command event => ?_, fun held hheld settings => ?_⟩
  · rw [Settings.ofText, h]
  · rw [exists_settings_iff, fault?_eq_none_iff, and_assoc, and_assoc, and_assoc]
    refine and_congr_right' (and_congr_right' (and_congr_right' (and_congr_right' ?_)))
    constructor
    · intro h name listed hfind
      obtain ⟨hcommand, hkeys⟩ := h (name, listed) (Index.mem_items_iff.mpr hfind)
      exact ⟨hcommand, hkeys⟩
    · rintro h ⟨name, listed⟩ hmem
      obtain ⟨hcommand, hkeys⟩ := h name listed (Index.mem_items_iff.mp hmem)
      exact ⟨hcommand, hkeys⟩
  · obtain ⟨-, keymap, hkeymap, rfl⟩ := settings_eq_ok_iff.mp h
    exact (lists_written hkeymap command).any_sameKey_iff event
  · rw [settings_eq_ok_iff]
    simp only [override_merged hheld]

/-- A document that gives the cancel command other keys and completion none.  The delete command
keeps its keys, and so it is when the bindings are read backwards. -/
theorem overridden_by_command_cancel :
    let lines := ["[limits]", "max_registration_depth = 2", "max_composition_length = 10",
      "[keymap]", "cancel = [\"C-c\", \"S-C-Q\"]", "complete = []"]
    let text := lines.flatMap fun line => line.toList ++ ['\n']
    let document : SettingsDocument :=
      { builtin with
        maxRegistrationDepth := 2
        maxCompositionLength := 10
        bindings := Index.ofList
          [("cancel".toList, ["C-c".toList, "S-C-Q".toList]), ("complete".toList, [])] }
    let held := document.merged.items.reverse
    let control : Char → KeyEvent := fun c => ⟨.char c, { control := true }⟩
    ofText? text = some document ∧ held.Perm document.merged.items ∧
      ∃ settings, document.settings = .ok settings ∧ Settings.ofText text = .ok settings ∧
        Keymap.empty.override held = .ok settings.keymap ∧
        settings.keymap.binds .cancel (control 'Q') = true ∧
        settings.keymap.binds .complete ⟨.named .tab, {}⟩ = false ∧
        settings.keymap.binds .delete (control 'h') = true := by
  intro lines text document held control
  obtain ⟨htext, hsome, hbinds, horder⟩ := overridden_by_command document
  have hread : ofText? text = some document := by decide +kernel
  have hheld : held.Perm document.merged.items := List.reverse_perm _
  have hreadable : ∀ name listed, document.bindings.find? name = some listed →
      (∃ command : Command, command.name = name) ∧
        ∀ s ∈ listed, ∃ key, KeyEvent.ofNotation s = .ok key := by
    intro name listed hfind
    have hitems : document.bindings.items =
        [("cancel".toList, ["C-c".toList, "S-C-Q".toList]), ("complete".toList, [])] := by
      decide +kernel
    have hmem := Index.mem_items_iff.mpr hfind
    rw [hitems, List.mem_cons, List.mem_singleton] at hmem
    rcases hmem with he | he
    · obtain ⟨rfl, rfl⟩ := Prod.mk.inj he
      refine ⟨⟨.cancel, rfl⟩, ?_⟩
      rw [List.forall_mem_cons, List.forall_mem_singleton]
      exact ⟨⟨_, rfl⟩, ⟨_, rfl⟩⟩
    · obtain ⟨rfl, rfl⟩ := Prod.mk.inj he
      exact ⟨⟨.complete, rfl⟩, fun s hs => absurd hs List.not_mem_nil⟩
  obtain ⟨settings, hsettings⟩ := hsome.mpr ⟨by decide, by decide, by decide, by decide, hreadable⟩
  obtain ⟨-, keymap, hkeymap, rfl⟩ := (horder held hheld settings).mp hsettings
  refine ⟨hread, hheld, _, hsettings, (htext text hread).trans hsettings, hkeymap, ?_, ?_, ?_⟩
  · exact (hbinds _ hsettings _ _).mpr ⟨"S-C-Q".toList, by decide +kernel, _, rfl, rfl⟩
  · rw [Bool.eq_false_iff]
    intro hbound
    obtain ⟨s, hs, -⟩ := (hbinds _ hsettings _ _).mp hbound
    rw [show document.written .complete = [] by decide +kernel] at hs
    exact absurd hs List.not_mem_nil
  · exact (hbinds _ hsettings _ _).mpr ⟨"C-h".toList, by decide +kernel, _, rfl, rfl⟩

end SettingsDocument

end KanaKanji

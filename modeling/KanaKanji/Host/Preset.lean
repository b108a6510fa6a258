/-
Presets: values that a host may choose once, before they are first used.

A preset has a value of its own until the host installs another.  The first use fixes the
value for good.  The host may install one value only; when the preset has been used before,
that has no effect any more.
-/

namespace KanaKanji

/-- A value that may be chosen once. -/
structure Preset (α : Type) where
  /-- What the host has installed. -/
  installed : Option α
  /-- What the first use has fixed. -/
  fixed : Option α

namespace Preset

variable {α : Type}

/-- Nothing installed and nothing used. -/
def fresh : Preset α := ⟨none, none⟩

/-- Install a value; `none` if there is one already. -/
def install? (preset : Preset α) (value : α) : Option (Preset α) :=
  match preset.installed with
  | some _ => none
  | none => some { preset with installed := some value }

/-- The value that counts, `standard` being the preset's own. -/
def value (preset : Preset α) (standard : α) : α :=
  preset.fixed.getD (preset.installed.getD standard)

/-- The preset after a use. -/
def use (preset : Preset α) (standard : α) : Preset α :=
  { preset with fixed := some (preset.value standard) }

/-- A use does not change the value that counts. -/
@[simp] theorem value_use (preset : Preset α) (standard : α) :
    (preset.use standard).value standard = preset.value standard := rfl

end Preset

end KanaKanji
